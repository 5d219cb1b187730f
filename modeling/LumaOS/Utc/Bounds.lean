import LumaOS.Governance.Grants
import Mathlib.Algebra.Order.Ring.Rat
import Mathlib.Data.List.Permutation
import Mathlib.Tactic.Linarith
import Mathlib.Tactic.Ring

/-!
# Interval arithmetic for UTC

Model of `utc_bounds.rs:7-190`: measurements of UTC by up to three operators, the projection of one
of them to the present, and the consensus of two or three. `Interval` itself is in
`LumaOS.Governance.Grants`, where validity windows use it.

The code computes in milliseconds, with the drift of the local clock rounded up on both ends. What
it promises is about true time, which is rational here:

* `project_covers`: an interval that covered UTC when it was observed covers it when projected, if
  the local clock kept to the policy's rate error since; and a projected sample is not older than
  the policy allows, in real time.
* `merge_covers`: two covering intervals out of two or three are enough. With two inputs the result
  is their hull; with three it is the hull of all pairwise overlaps, so a third interval can widen
  it and cannot cut truth off.
* `merge_perm`: the result is a function of the intervals and not of their order.

**`consensus_sound`** puts them together.
-/

namespace LumaOS.Utc

open LumaOS.Base LumaOS.Text LumaOS.Governance

/-! ## Intervals -/

/-- `Interval::intersection`. -/
def intersection (a b : Interval) : Option Interval :=
  let lowerMs := max a.lowerMs b.lowerMs
  let upperMs := min a.upperMs b.upperMs
  if lowerMs ≤ upperMs then some { lowerMs, upperMs } else none

/-- `Interval::hull`. -/
def hull (a b : Interval) : Interval where
  lowerMs := min a.lowerMs b.lowerMs
  upperMs := max a.upperMs b.upperMs

/-! ## Measurements -/

structure Epoch where
  bootId : Vector UInt8 16
  providerGeneration : UInt64
  clockGeneration : UInt64
  policyDigest : Vector UInt8 32
deriving DecidableEq

/-- `Epoch::validate`. -/
def Epoch.validate (e : Epoch) : Result Unit :=
  refuseIf (e.bootId == Vector.replicate 16 0 || e.providerGeneration == 0 ||
      e.clockGeneration == 0 || e.policyDigest == Vector.replicate 32 0)
    "uninitialized UTC epoch"

structure Policy where
  maxAgeMs : UInt64
  maxWidthMs : UInt64
  driftPpm : UInt32

/-- `Policy::validate`. -/
def Policy.validate (p : Policy) : Result Unit :=
  refuseIf (p.maxAgeMs == 0 || p.maxAgeMs > 3600000 || p.maxWidthMs == 0 || p.maxWidthMs > 1000 ||
      p.driftPpm == 0 || p.driftPpm > 1000)
    "invalid bounded UTC policy"

structure Measurement where
  operator : UInt8
  utc : Interval
  observedBoottimeMs : UInt64
  epoch : Epoch
deriving DecidableEq

/-- `a.div_ceil(b)`. -/
def divCeil (a b : Nat) : Nat := (a + b - 1) / b

/-- How far the local clock may be off after `age`, rounded up. -/
def driftOf (age ppm : Nat) : Nat := divCeil (age * ppm) (1000000 - ppm)

/-- `utc_bounds::project`. -/
def project (sample : Measurement) (now : UInt64) (epoch : Epoch) (policy : Policy) :
    Result Interval := do
  epoch.validate
  policy.validate
  refuseIf (sample.epoch != epoch || !(1 ≤ sample.operator && sample.operator ≤ 3))
    "UTC source or epoch mismatch"
  let age ← okOr ((u64Sub now sample.observedBoottimeMs).filter fun age => age ≤ policy.maxAgeMs)
    "UTC sample is future-dated or stale"
  let drift := driftOf age.toNat policy.driftPpm.toNat
  refuseIf (age.toNat + drift > policy.maxAgeMs.toNat) "UTC sample may exceed its real-age limit"
  let age ← okOr (i64OfNat age.toNat) outOfRange
  let drift ← okOr (i64OfNat drift) outOfRange
  let lower ← okOr ((i64Add sample.utc.lowerMs age).bind fun v => i64Sub v drift)
    "UTC projection overflow"
  let upper ← okOr ((i64Add sample.utc.upperMs age).bind fun v => i64Add v drift)
    "UTC projection overflow"
  Interval.new lower upper

/-! ## Consensus -/

/-- One sample of the loop of `consensus`; the accumulator is the samples before it, whose operators
the source keeps in a bit mask, and their projections. -/
def sampleStep (now : UInt64) (epoch : Epoch) (policy : Policy)
    (acc : List Measurement × List Interval) (sample : Measurement) :
    Result (List Measurement × List Interval) := do
  let interval ← project sample now epoch policy
  refuseIf (acc.1.any fun s => s.operator == sample.operator) "duplicate UTC operator"
  pure (acc.1 ++ [sample], acc.2 ++ [interval])

/-- One pair of the loop: `possible = Some(possible.map_or(overlap, |v| v.hull(overlap)))` where it
overlaps. -/
def possibleStep (possible : Option Interval) (pair : Interval × Interval) : Option Interval :=
  match intersection pair.1 pair.2 with
  | none => possible
  | some overlap => some ((possible.map fun v => hull v overlap).getD overlap)

def disagree : String := "UTC operators disagree"

/-- The bounds of two or three projections: the hull of two that overlap, or of all the overlaps.
Other lengths would be indexed out of bounds. -/
def merge : List Interval → Result Interval
  | [a, b] => do
    let _ ← okOr (intersection a b) disagree
    pure (hull a b)
  | [a, b, c] => okOr ([(a, b), (a, c), (b, c)].foldl possibleStep none) disagree
  | _ => .error (.panicked "index out of bounds")

/-- `utc_bounds::consensus`. -/
def consensus (samples : List Measurement) (now : UInt64) (epoch : Epoch) (policy : Policy) :
    Result Interval := do
  epoch.validate
  policy.validate
  refuseIf (!(2 ≤ samples.length && samples.length ≤ 3))
    "UTC requires two or three independent operators"
  let (_, projected) ← samples.foldlM (sampleStep now epoch policy) ([], [])
  let bounds ← merge projected
  let width ← expect (i64Sub bounds.upperMs bounds.lowerMs) underflow
  refuseIf (width < 0) outOfRange
  refuseIf (width > policy.maxWidthMs.toNat) "UTC uncertainty exceeds policy"
  pure bounds

/-! ## True time -/

/-- The interval contains the instant. -/
def Covers (i : Interval) (t : ℚ) : Prop := (i.lowerMs : ℚ) ≤ t ∧ t ≤ i.upperMs

/-- A local clock that measured `age` over `elapsed` of true time kept to the rate error. -/
def Kept (ppm : UInt32) (age elapsed : ℚ) : Prop :=
  |age - elapsed| ≤ elapsed * ppm.toNat / 1000000

/-- What the local clock measured since the observation. -/
def Measurement.age (s : Measurement) (now : UInt64) : ℚ :=
  now.toNat - s.observedBoottimeMs.toNat

/-- A measurement is honest about an instant `truth` that the local clock shows as `now`. -/
def Measurement.Honest (s : Measurement) (now : UInt64) (policy : Policy) (truth : ℚ) : Prop :=
  ∃ elapsed, Kept policy.driftPpm (s.age now) elapsed ∧ Covers s.utc (truth - elapsed)

/-! ## One projection -/

theorem le_mul_divCeil (a : Nat) {b : Nat} (hb : 0 < b) : a ≤ divCeil a b * b := by
  unfold divCeil
  have hdiv := Nat.div_add_mod (a + b - 1) b
  have hmod := Nat.mod_lt (a + b - 1) hb
  rw [Nat.mul_comm] at hdiv
  omega

theorem policy_drift {p : Policy} (h : p.validate = .ok ()) :
    0 < p.driftPpm.toNat ∧ p.driftPpm.toNat ≤ 1000 := by
  simp only [Policy.validate, refuseIf_eq_ok, Bool.or_eq_false_iff, beq_eq_false_iff_ne,
    decide_eq_false_iff_not, UInt32.not_lt, gt_iff_lt] at h
  have hne : p.driftPpm.toNat ≠ 0 := fun he => h.1.2 (UInt32.toNat_inj.mp he)
  exact ⟨Nat.pos_of_ne_zero hne, UInt32.le_iff_toNat_le.mp h.2⟩

/-- What a successful projection is: the observed interval moved by the measured age and widened by
the drift, of a sample whose greatest real age is within the limit. -/
structure Projected (s : Measurement) (now : UInt64) (policy : Policy) (i : Interval) :
    Prop where
  past : s.observedBoottimeMs.toNat ≤ now.toNat
  fresh : now.toNat - s.observedBoottimeMs.toNat +
    driftOf (now.toNat - s.observedBoottimeMs.toNat) policy.driftPpm.toNat ≤ policy.maxAgeMs.toNat
  lower : i.lowerMs = s.utc.lowerMs + (now.toNat - s.observedBoottimeMs.toNat : Nat) -
    driftOf (now.toNat - s.observedBoottimeMs.toNat) policy.driftPpm.toNat
  upper : i.upperMs = s.utc.upperMs + (now.toNat - s.observedBoottimeMs.toNat : Nat) +
    driftOf (now.toNat - s.observedBoottimeMs.toNat) policy.driftPpm.toNat
  nonneg : 0 ≤ i.lowerMs
  ordered : i.lowerMs ≤ i.upperMs
  bounded : i.upperMs < 2 ^ 63

theorem i64OfNat_eq_some {n : Nat} {z : Int} : i64OfNat n = some z ↔ n < 2 ^ 63 ∧ z = n := by
  unfold i64OfNat
  split
  · rename_i h
    rw [Option.some.injEq]
    exact ⟨fun hz => ⟨h, hz.symm⟩, fun hz => hz.2.symm⟩
  · rename_i h
    exact ⟨fun hz => (by cases hz), fun hz => absurd hz.1 h⟩

theorem project_eq_ok {s : Measurement} {now : UInt64} {epoch : Epoch} {policy : Policy}
    {i : Interval} (h : project s now epoch policy = .ok i) :
    s.epoch = epoch ∧ Projected s now policy i := by
  simp only [project, bind_eq_ok, refuseIf_eq_ok, okOr_eq_ok, Bool.or_eq_false_iff,
    bne_eq_false_iff_eq, Option.filter_eq_some_iff, u64Sub_eq_some, decide_eq_false_iff_not,
    Option.bind_eq_some_iff, i64Add_eq_some, i64Sub_eq_some, i64OfNat_eq_some, Interval.new,
    pure_eq_ok] at h
  obtain ⟨_, -, _, -, _, ⟨hepoch, -⟩, age, ⟨⟨hle, rfl⟩, -⟩, _, hfresh, _, ⟨-, rfl⟩, _, ⟨-, rfl⟩,
    lower, ⟨_, ⟨-, rfl⟩, -, rfl⟩, upper, ⟨_, ⟨-, rfl⟩, ⟨-, hmax⟩, rfl⟩, _, hordered, rfl⟩ := h
  have hle := UInt64.le_iff_toNat_le.mp hle
  have hage : (now - s.observedBoottimeMs).toNat = now.toNat - s.observedBoottimeMs.toNat :=
    UInt64.toNat_sub_of_le _ _ (UInt64.le_iff_toNat_le.mpr hle)
  rw [hage] at hfresh hmax hordered ⊢
  refine ⟨hepoch, hle, by omega, rfl, rfl, ?_, ?_, hmax⟩
  · simp only
    omega
  · simp only
    omega

/-- **The drift covers the rate error.** True elapsed time is within the drift of the measured
age: dividing by `1 - error` covers a slow clock, and more than covers a fast one. -/
theorem elapsed_within_drift {ppm : UInt32} (hppm : 0 < ppm.toNat ∧ ppm.toNat ≤ 1000) {age : Nat}
    {elapsed : ℚ} (h : Kept ppm age elapsed) :
    (age : ℚ) - driftOf age ppm.toNat ≤ elapsed ∧ elapsed ≤ age + driftOf age ppm.toNat := by
  have hd : (0 : ℚ) < ppm.toNat := by exact_mod_cast hppm.1
  have hd' : (ppm.toNat : ℚ) ≤ 1000 := by exact_mod_cast hppm.2
  have hdrift : (age : ℚ) * ppm.toNat ≤ driftOf age ppm.toNat * (1000000 - ppm.toNat) := by
    have hnat := le_mul_divCeil (age * ppm.toNat) (b := 1000000 - ppm.toNat) (by omega)
    rw [← Nat.cast_ofNat, ← Nat.cast_sub (by omega)]
    exact_mod_cast hnat
  have hnonneg : (0 : ℚ) ≤ driftOf age ppm.toNat := Nat.cast_nonneg _
  obtain ⟨hlo, hhi⟩ := abs_le.mp h
  generalize (driftOf age ppm.toNat : ℚ) = drift at hdrift hnonneg ⊢
  generalize (ppm.toNat : ℚ) = d at *
  constructor
  · have hmul : ((age : ℚ) - drift) * (1000000 + d) ≤ elapsed * (1000000 + d) := by
      have := mul_nonneg hnonneg hd.le
      nlinarith
    exact le_of_mul_le_mul_right hmul (by linarith)
  · have hmul : elapsed * (1000000 - d) ≤ ((age : ℚ) + drift) * (1000000 - d) := by
      nlinarith
    exact le_of_mul_le_mul_right hmul (by linarith)

theorem Measurement.age_eq {s : Measurement} {now : UInt64}
    (h : s.observedBoottimeMs.toNat ≤ now.toNat) :
    s.age now = ((now.toNat - s.observedBoottimeMs.toNat : Nat) : ℚ) := by
  rw [Measurement.age, Nat.cast_sub h]

/-- **An honest sample still covers UTC when projected.** -/
theorem project_covers {s : Measurement} {now : UInt64} {policy : Policy} {i : Interval}
    (hp : policy.validate = .ok ()) (h : Projected s now policy i) {truth : ℚ}
    (honest : s.Honest now policy truth) : Covers i truth := by
  obtain ⟨elapsed, hkept, hlo, hhi⟩ := honest
  rw [Measurement.age_eq h.past] at hkept
  obtain ⟨hmin, hmax⟩ := elapsed_within_drift (policy_drift hp) hkept
  constructor
  · rw [h.lower]
    push_cast at hmin ⊢
    linarith
  · rw [h.upper]
    push_cast at hmax ⊢
    linarith

/-- **A projected sample is within its real age.** -/
theorem project_fresh {s : Measurement} {now : UInt64} {policy : Policy} {i : Interval}
    (hp : policy.validate = .ok ()) (h : Projected s now policy i) {elapsed : ℚ}
    (hkept : Kept policy.driftPpm (s.age now) elapsed) : elapsed ≤ policy.maxAgeMs.toNat := by
  rw [Measurement.age_eq h.past] at hkept
  have hfresh : ((now.toNat - s.observedBoottimeMs.toNat +
      driftOf (now.toNat - s.observedBoottimeMs.toNat) policy.driftPpm.toNat : Nat) : ℚ) ≤
      (policy.maxAgeMs.toNat : ℚ) := Nat.cast_le.mpr h.fresh
  rw [Nat.cast_add] at hfresh
  exact (elapsed_within_drift (policy_drift hp) hkept).2.trans hfresh

/-! ## Merging -/

section Merge

variable {a b c i : Interval} {t : ℚ}

theorem covers_hull_left (h : Covers a t) : Covers (hull a b) t := by
  obtain ⟨hlo, hhi⟩ := h
  constructor
  · exact le_trans (Int.cast_le.mpr (min_le_left _ _)) hlo
  · exact le_trans hhi (Int.cast_le.mpr (le_max_left _ _))

theorem hull_comm (a b : Interval) : hull a b = hull b a := by
  simp only [hull, min_comm, max_comm]

theorem covers_hull_right (h : Covers b t) : Covers (hull a b) t :=
  hull_comm b a ▸ covers_hull_left h

theorem intersection_comm (a b : Interval) : intersection a b = intersection b a := by
  simp only [intersection, min_comm, max_comm]

/-- Two intervals that cover an instant overlap, and the overlap covers it. -/
theorem intersection_covers (ha : Covers a t) (hb : Covers b t) :
    ∃ overlap, intersection a b = some overlap ∧ Covers overlap t := by
  have hlo : ((max a.lowerMs b.lowerMs : Int) : ℚ) ≤ t := by
    rw [Int.cast_max]
    exact max_le ha.1 hb.1
  have hhi : t ≤ ((min a.upperMs b.upperMs : Int) : ℚ) := by
    rw [Int.cast_min]
    exact le_min ha.2 hb.2
  have hle : max a.lowerMs b.lowerMs ≤ min a.upperMs b.upperMs :=
    Int.cast_le.mp (hlo.trans hhi)
  exact ⟨_, if_pos hle, hlo, hhi⟩

/-- An overlap found is kept by the rest of the loop. -/
theorem possibleStep_covers {possible : Option Interval} {pair : Interval × Interval}
    (h : ∃ v, possible = some v ∧ Covers v t) :
    ∃ v, possibleStep possible pair = some v ∧ Covers v t := by
  obtain ⟨v, rfl, hv⟩ := h
  unfold possibleStep
  split
  · exact ⟨v, rfl, hv⟩
  · exact ⟨_, rfl, covers_hull_left hv⟩

theorem possibleStep_found {possible : Option Interval} (ha : Covers a t) (hb : Covers b t) :
    ∃ v, possibleStep possible (a, b) = some v ∧ Covers v t := by
  obtain ⟨overlap, ho, ht⟩ := intersection_covers ha hb
  simp only [possibleStep, ho]
  cases possible with
  | none => exact ⟨overlap, rfl, ht⟩
  | some v => exact ⟨_, rfl, covers_hull_right ht⟩

/-- **Two covering intervals out of two or three are enough.** -/
theorem merge_covers {l : List Interval}
    (hl : l.Pairwise fun a b => Covers a t ∨ Covers b t) (h : merge l = .ok i) : Covers i t := by
  unfold merge at h
  split at h
  · rename_i a b
    simp only [bind_eq_ok, okOr_eq_ok, pure_eq_ok] at h
    obtain ⟨_, -, rfl⟩ := h
    simp only [List.pairwise_cons, List.mem_singleton, forall_eq] at hl
    exact hl.1.elim covers_hull_left covers_hull_right
  · rename_i a b c
    rw [okOr_eq_ok] at h
    simp only [List.pairwise_cons, List.mem_cons, forall_eq_or_imp, List.not_mem_nil,
      false_imp_iff, implies_true, and_true] at hl
    obtain ⟨⟨hab, hac⟩, hbc⟩ := hl
    -- at most one of the three fails, so one of the three pairs covers
    have hfold : ∃ v, [(a, b), (a, c), (b, c)].foldl possibleStep none = some v ∧ Covers v t := by
      simp only [List.foldl_cons, List.foldl_nil]
      by_cases ha : Covers a t
      · obtain hb | hc := hbc
        · exact possibleStep_covers (possibleStep_covers (possibleStep_found ha hb))
        · exact possibleStep_covers (possibleStep_found ha hc)
      · exact possibleStep_found (hab.resolve_left ha) (hac.resolve_left ha)
    obtain ⟨v, hv, ht⟩ := hfold
    rw [hv] at h
    cases h
    exact ht
  · cases h

/-- The hull of two overlaps, of which either may be missing. -/
def join : Option Interval → Option Interval → Option Interval
  | none, y => y
  | some v, none => some v
  | some v, some overlap => some (hull v overlap)

theorem possibleStep_eq (possible : Option Interval) (a b : Interval) :
    possibleStep possible (a, b) = join possible (intersection a b) := by
  unfold possibleStep
  cases intersection a b <;> cases possible <;> rfl

theorem join_comm (x y : Option Interval) : join x y = join y x := by
  cases x <;> cases y <;> simp only [join, hull_comm]

theorem join_assoc (x y z : Option Interval) : join (join x y) z = join x (join y z) := by
  cases x <;> cases y <;> cases z <;> simp only [join, hull, min_assoc, max_assoc]

theorem join_right_comm (x y z : Option Interval) : join (join x y) z = join (join x z) y := by
  rw [join_assoc, join_comm y z, ← join_assoc]

theorem merge_three (a b c : Interval) : merge [a, b, c] =
    okOr (join (join (intersection a b) (intersection a c)) (intersection b c)) disagree := by
  simp only [merge, List.foldl_cons, List.foldl_nil, possibleStep_eq, join]

theorem merge_swap_left (a b c : Interval) : merge [a, b, c] = merge [b, a, c] := by
  rw [merge_three, merge_three, join_right_comm, intersection_comm a b]

theorem merge_swap_right (a b c : Interval) : merge [a, b, c] = merge [a, c, b] := by
  rw [merge_three, merge_three, join_comm (intersection a b), intersection_comm b c]

/-- **Merging does not depend on the order.** -/
theorem merge_perm {l l' : List Interval} (h : l.Perm l') (hl : l.length = 2 ∨ l.length = 3) :
    merge l = merge l' := by
  have hmem := List.mem_permutations'.mpr h.symm
  obtain hl | hl := hl
  · obtain ⟨a, b, rfl⟩ := List.length_eq_two.mp hl
    simp only [List.permutations', List.permutations'Aux, List.flatMap_cons, List.flatMap_nil,
      List.map_cons, List.map_nil, List.append_nil, List.mem_cons, List.not_mem_nil,
      or_false] at hmem
    obtain rfl | rfl := hmem
    · rfl
    · simp only [merge, intersection_comm, hull_comm]
  · obtain ⟨a, b, c, rfl⟩ := List.length_eq_three.mp hl
    simp only [List.permutations', List.permutations'Aux, List.flatMap_cons, List.flatMap_nil,
      List.map_cons, List.map_nil, List.append_nil, List.cons_append, List.nil_append,
      List.mem_cons, List.not_mem_nil, or_false] at hmem
    rcases hmem with rfl | rfl | rfl | rfl | rfl | rfl
    · rfl
    · exact merge_swap_left a b c
    · rw [merge_swap_left, merge_swap_right]
    · exact merge_swap_right a b c
    · rw [merge_swap_right, merge_swap_left]
    · rw [merge_swap_left, merge_swap_right, merge_swap_left]

/-- The ends are ordered instants of an `i64` clock. -/
def InRange (v : Interval) : Prop := 0 ≤ v.lowerMs ∧ v.lowerMs ≤ v.upperMs ∧ v.upperMs < 2 ^ 63

theorem hull_inRange (ha : InRange a) (hb : InRange b) : InRange (hull a b) := by
  obtain ⟨ha₀, hale, ha⟩ := ha
  obtain ⟨hb₀, hble, hb⟩ := hb
  unfold InRange hull
  dsimp only
  omega

theorem join_inRange {x y : Option Interval} (hx : ∀ v ∈ x, InRange v) (hy : ∀ v ∈ y, InRange v) :
    ∀ v ∈ join x y, InRange v := by
  cases x with
  | none => exact hy
  | some v =>
    cases y with
    | none => exact hx
    | some w =>
      rintro _ ⟨⟩
      exact hull_inRange (hx v rfl) (hy w rfl)

theorem intersection_inRange (ha : InRange a) : ∀ v ∈ intersection a b, InRange v := by
  intro v hv
  unfold intersection at hv
  dsimp only at hv
  split at hv
  · rename_i hle
    cases hv
    exact ⟨le_trans ha.1 (le_max_left _ _), hle, lt_of_le_of_lt (min_le_left _ _) ha.2.2⟩
  · cases hv

theorem merge_inRange {l : List Interval} (hl : ∀ v ∈ l, InRange v) (h : merge l = .ok i) :
    InRange i := by
  unfold merge at h
  split at h
  · rename_i a b
    simp only [bind_eq_ok, okOr_eq_ok, pure_eq_ok] at h
    obtain ⟨_, -, rfl⟩ := h
    exact hull_inRange (hl a (by simp)) (hl b (by simp))
  · rename_i a b c
    rw [← merge, merge_three, okOr_eq_ok] at h
    have ha := hl a (by simp)
    exact join_inRange (join_inRange (intersection_inRange ha) (intersection_inRange ha))
      (intersection_inRange (hl b (by simp))) i h
  · cases h

end Merge

/-! ## Consensus -/

section Consensus

variable {samples samples' : List Measurement} {now : UInt64} {epoch : Epoch} {policy : Policy}
  {i : Interval}

/-- The projection of a sample that has one. -/
def projection (now : UInt64) (epoch : Epoch) (policy : Policy) (s : Measurement) : Interval :=
  match project s now epoch policy with
  | .ok i => i
  | .error _ => ⟨0, 0⟩

/-- A consensus, read back. -/
structure Agreed (samples : List Measurement) (now : UInt64) (epoch : Epoch) (policy : Policy)
    (i : Interval) : Prop where
  epochValid : epoch.validate = .ok ()
  policyValid : policy.validate = .ok ()
  number : samples.length = 2 ∨ samples.length = 3
  projected : ∀ s ∈ samples, project s now epoch policy = .ok (projection now epoch policy s)
  operators : samples.Pairwise fun a b => a.operator ≠ b.operator
  merged : merge (samples.map (projection now epoch policy)) = .ok i
  small : -2 ^ 63 ≤ i.upperMs - i.lowerMs ∧ i.upperMs - i.lowerMs < 2 ^ 63
  ordered : i.lowerMs ≤ i.upperMs
  width : i.upperMs - i.lowerMs ≤ policy.maxWidthMs.toNat

theorem sampleStep_eq_ok {past : List Measurement} {s : Measurement}
    {acc : List Measurement × List Interval} :
    sampleStep now epoch policy (past, past.map (projection now epoch policy)) s = .ok acc ↔
      (project s now epoch policy = .ok (projection now epoch policy s) ∧
        ∀ y ∈ past, y.operator ≠ s.operator) ∧
      acc = (past ++ [s], (past ++ [s]).map (projection now epoch policy)) := by
  simp only [sampleStep, bind_eq_ok, refuseIf_eq_ok, List.any_eq_false, beq_iff_eq, pure_eq_ok,
    List.map_append, List.map_cons, List.map_nil]
  constructor
  · rintro ⟨i, hi, _, hfresh, rfl⟩
    have hproj : projection now epoch policy s = i := by rw [projection, hi]
    exact ⟨⟨by rw [hproj, hi], hfresh⟩, by rw [hproj]⟩
  · rintro ⟨⟨hi, hfresh⟩, rfl⟩
    exact ⟨_, hi, (), hfresh, rfl⟩

theorem sampleLoop_eq_ok {acc : List Measurement × List Interval} :
    samples.foldlM (sampleStep now epoch policy) ([], []) = .ok acc ↔
      (∀ s ∈ samples, project s now epoch policy = .ok (projection now epoch policy s)) ∧
      samples.Pairwise (fun a b => a.operator ≠ b.operator) ∧
      acc = (samples, samples.map (projection now epoch policy)) :=
  foldlM_pairwise (S := fun past => (past, past.map (projection now epoch policy)))
    (fun _ _ _ _ _ => sampleStep_eq_ok) samples [] acc
    (fun _ hy => absurd hy List.not_mem_nil) .nil

theorem consensus_eq_ok : consensus samples now epoch policy = .ok i ↔
    Agreed samples now epoch policy i := by
  simp only [consensus, bind_eq_ok, refuseIf_eq_ok, expect_eq_ok, i64Sub_eq_some, pure_eq_ok,
    Bool.not_eq_false', Bool.and_eq_true, decide_eq_true_eq, decide_eq_false_iff_not,
    sampleLoop_eq_ok]
  constructor
  · rintro ⟨_, hepoch, _, hpolicy, _, hlen, acc, ⟨hproj, hops, rfl⟩, bounds, hmerge, width,
      ⟨hsmall, rfl⟩, _, hneg, _, hwidth, rfl⟩
    exact ⟨hepoch, hpolicy, by omega, hproj, hops, hmerge, hsmall, by omega, by omega⟩
  · rintro ⟨hepoch, hpolicy, hlen, hproj, hops, hmerge, hsmall, hord, hwidth⟩
    exact ⟨(), hepoch, (), hpolicy, (), by omega, _, ⟨hproj, hops, rfl⟩, i, hmerge, _,
      ⟨hsmall, rfl⟩, (), by omega, (), by omega, rfl⟩

theorem projections_inRange
    (h : ∀ s ∈ samples, project s now epoch policy = .ok (projection now epoch policy s)) :
    ∀ v ∈ samples.map (projection now epoch policy), InRange v := by
  intro v hv
  obtain ⟨s, hs, rfl⟩ := List.mem_map.mp hv
  have hproj := (project_eq_ok (h s hs)).2
  exact ⟨hproj.nonneg, hproj.ordered, hproj.bounded⟩

instance noPanic_project (s : Measurement) : NoPanic (project s now epoch policy) := by
  unfold project Epoch.validate Policy.validate
  refine noPanic_bind inferInstance fun _ _ => noPanic_bind inferInstance fun _ _ => ?_
  refine noPanic_bind inferInstance fun _ _ => noPanic_bind inferInstance fun _ _ => ?_
  unfold Interval.new
  infer_instance

theorem noPanic_merge {l : List Interval} (hl : l.length = 2 ∨ l.length = 3) :
    NoPanic (merge l) := by
  unfold merge
  split
  · infer_instance
  · infer_instance
  · rename_i h₂ h₃
    exfalso
    obtain hl | hl := hl
    · obtain ⟨a, b, rfl⟩ := List.length_eq_two.mp hl
      exact h₂ a b rfl
    · obtain ⟨a, b, c, rfl⟩ := List.length_eq_three.mp hl
      exact h₃ a b c rfl

/-- The projections are two or three and lie in the clock's range, so neither the indices nor the
width can panic. -/
instance noPanic_consensus : NoPanic (consensus samples now epoch policy) := by
  unfold consensus Epoch.validate Policy.validate
  refine noPanic_bind inferInstance fun _ _ => noPanic_bind inferInstance fun _ _ => ?_
  refine noPanic_bind inferInstance fun _ hlen => ?_
  have hloop : NoPanic (samples.foldlM (sampleStep now epoch policy) ([], [])) :=
    noPanic_foldlM (fun acc s => by unfold sampleStep; infer_instance) _ _
  refine noPanic_bind hloop fun acc hacc => ?_
  obtain ⟨hproj, -, rfl⟩ := sampleLoop_eq_ok.mp hacc
  simp only [refuseIf_eq_ok, Bool.not_eq_false', Bool.and_eq_true, decide_eq_true_eq] at hlen
  refine noPanic_bind (noPanic_merge (by rw [List.length_map]; omega)) fun bounds hbounds => ?_
  obtain ⟨hlo, hle, hhi⟩ := merge_inRange (projections_inRange hproj) hbounds
  have hwidth : i64Sub bounds.upperMs bounds.lowerMs = some (bounds.upperMs - bounds.lowerMs) :=
    i64Sub_eq_some.mpr ⟨by omega, rfl⟩
  exact noPanic_bind (noPanic_expect hwidth _) fun _ _ => inferInstance

/-- Every condition of a consensus is about the samples as a set. -/
theorem Agreed.perm (h : Agreed samples now epoch policy i) (hp : samples.Perm samples') :
    Agreed samples' now epoch policy i where
  epochValid := h.epochValid
  policyValid := h.policyValid
  number := hp.length_eq ▸ h.number
  projected s hs := h.projected s (hp.mem_iff.mpr hs)
  operators := (hp.pairwise_iff fun hab => hab.symm).mp h.operators
  merged := by
    rw [← merge_perm (hp.map _) (by rw [List.length_map]; exact h.number)]
    exact h.merged
  small := h.small
  ordered := h.ordered
  width := h.width

/-- **UTC consensus is sound under one fault.** An accepted interval is ordered, not negative and
no wider than the policy; it covers true UTC when at most one sample is not honest about it; and no
sample in it is older than the policy allows, if the local clock kept to its rate error. Anything
else is a refusal, and the order of the samples does not matter to either. -/
theorem consensus_sound (samples : List Measurement) (now : UInt64) (epoch : Epoch)
    (policy : Policy) :
    (∀ i, consensus samples now epoch policy = .ok i →
      (0 ≤ i.lowerMs ∧ i.lowerMs ≤ i.upperMs ∧
        i.upperMs - i.lowerMs ≤ policy.maxWidthMs.toNat) ∧
      (∀ truth : ℚ, (samples.Pairwise fun a b =>
        a.Honest now policy truth ∨ b.Honest now policy truth) → Covers i truth) ∧
      (∀ s ∈ samples, ∀ elapsed : ℚ, Kept policy.driftPpm (s.age now) elapsed →
        elapsed ≤ policy.maxAgeMs.toNat)) ∧
    (∀ m, consensus samples now epoch policy ≠ .error (.panicked m)) ∧
    ∀ samples', samples.Perm samples' → ∀ i,
      consensus samples now epoch policy = .ok i ↔ consensus samples' now epoch policy = .ok i := by
  refine ⟨fun i h => ?_, noPanic_consensus.out, fun samples' hp i => ?_⟩
  · have h := consensus_eq_ok.mp h
    have hproj : ∀ s ∈ samples, Projected s now policy (projection now epoch policy s) :=
      fun s hs => (project_eq_ok (h.projected s hs)).2
    refine ⟨⟨?_, h.ordered, h.width⟩, fun truth honest => ?_, fun s hs elapsed hkept => ?_⟩
    · exact (merge_inRange (projections_inRange h.projected) h.merged).1
    · refine merge_covers ?_ h.merged
      rw [List.pairwise_map]
      refine honest.imp_of_mem fun {a b} ha hb hab => ?_
      exact hab.imp (project_covers h.policyValid (hproj a ha))
        (project_covers h.policyValid (hproj b hb))
    · exact project_fresh h.policyValid (hproj s hs) hkept
  · rw [consensus_eq_ok, consensus_eq_ok]
    exact ⟨fun h => h.perm hp, fun h => h.perm hp.symm⟩

/-- Two operators agree on a second-old observation. -/
example :
    let epoch : Epoch := ⟨Vector.replicate 16 1, 1, 1, Vector.replicate 32 1⟩
    let sample (operator : UInt8) : Measurement := ⟨operator, ⟨1000000, 1000050⟩, 1000, epoch⟩
    consensus [sample 1, sample 3] 2000 epoch ⟨180000, 500, 100⟩ = .ok ⟨1000999, 1001051⟩ := by
  decide +kernel

end Consensus

end LumaOS.Utc
