import LumaOS.Base.Run
import LumaOS.Text
import Mathlib.Data.List.Sort
import Mathlib.Data.String.Basic

/-!
# Memory domains, reservations and leases

`resources.py` checks every byte count against the unsigned 64-bit range and every name against
`_identifier` when a value is built, so `MemoryDomain`, `MemoryReservation` and `TelemetrySample`
carry what their `__post_init__` checked. An argument a caller passes is an `Arg`: the checks of the
source are also type checks.

`DomainRecord.recomputed` is `_recompute_state_locked` on one record. A record whose exit watermark
is below its enter watermark is left alone by a second recomputation (`recompute_recompute`); at
equal watermarks and a load exactly there, it is not.
-/

namespace LumaOS.Memory

open LumaOS.Base LumaOS.Text

/-! ## Errors and arguments -/

/-- The exception classes of `resources.py`; `foreign` is what an ID factory raises. -/
inductive FaultKind where
  | validation
  | byteArithmetic
  | admissionDenied
  | idempotencyConflict
  | staleLease
  | leaseOwnership
  | staleTelemetry
  | ledger
  | lookup
  | foreign
deriving DecidableEq, Repr

/-- A raised exception; `domainId` is the attribute of `AdmissionDenied`. -/
structure Fault where
  kind : FaultKind
  message : String
  domainId : Option String := none
deriving DecidableEq, Repr

def fault (kind : FaultKind) (message : String) : Fault := ⟨kind, message, none⟩

def invalid (message : String) : Fault := fault .validation message

/-- `AdmissionDenied(reason, domain_id=..)`. -/
def denied (reason domainId : String) : Fault := ⟨.admissionDenied, reason, some domainId⟩

/-- A Python argument, as far as the checks tell them apart. -/
inductive Arg where
  | text (value : String)
  | int (value : Int)
  | bool (value : Bool)
  | missing
  | other
deriving DecidableEq, Repr

/-- `MAX_U64`. -/
def maxU64 : Nat := 2 ^ 64 - 1

/-- `checked_u64`. -/
def checkedU64 (field : String) : Arg → Except Fault Nat
  | .int value =>
    if value < 0 ∨ value > maxU64 then
      .error (invalid s!"{field} must be between 0 and {maxU64}")
    else .ok value.toNat
  | _ => .error (invalid s!"{field} must be an integer")

/-- The error of `checked_sub_bytes`. -/
def underflow : Fault := fault .byteArithmetic "unsigned 64-bit byte subtraction underflow"

/-- `checked_add_bytes`. -/
def checkedAddBytes (left right : Nat) : Except Fault Nat := do
  let left ← checkedU64 "left" (.int left)
  let right ← checkedU64 "right" (.int right)
  raiseIf (left > maxU64 - right) (fault .byteArithmetic "unsigned 64-bit byte addition overflow")
  pure (left + right)

/-- `checked_sub_bytes`. -/
def checkedSubBytes (left right : Nat) : Except Fault Nat := do
  let left ← checkedU64 "left" (.int left)
  let right ← checkedU64 "right" (.int right)
  raiseIf (right > left) underflow
  pure (left - right)

/-- `checked_sum_bytes`. -/
def checkedSumBytes (values : List Nat) : Except Fault Nat := values.foldlM checkedAddBytes 0

/-- `value and value == value.strip()`: the text is not empty and neither end is whitespace. -/
def trimmed (value : String) : Bool :=
  (value.toList.head?.any fun c => !isSpace c) && (value.toList.getLast?.any fun c => !isSpace c)

/-- What `_identifier` accepts. -/
def isIdentifier (value : String) : Bool := trimmed value && value.length ≤ 256

/-- `_identifier`. -/
def identifier (field : String) : Arg → Except Fault String
  | .text value => do
    raiseIf (!trimmed value) (invalid s!"{field} must be a non-empty, trimmed string")
    raiseIf (value.length > 256) (invalid s!"{field} must not exceed 256 characters")
    pure value
  | _ => .error (invalid s!"{field} must be a non-empty, trimmed string")

section Checks

variable {field text : String} {n m k : Nat} {u : Unit}

theorem checkedU64_nat (h : n ≤ maxU64) : checkedU64 field (.int n) = .ok n := by
  have hnot : ¬((n : Int) < 0 ∨ (n : Int) > maxU64) := by omega
  simp only [checkedU64]
  rw [if_neg hnot, Int.toNat_natCast]

theorem checkedU64_le {a : Arg} (h : checkedU64 field a = .ok n) : n ≤ maxU64 := by
  cases a with
  | int value =>
    simp only [checkedU64] at h
    split at h
    · cases h
    · injection h with h
      omega
  | text => cases h
  | bool => cases h
  | missing => cases h
  | other => cases h

theorem checkedAddBytes_ok (h : n + m ≤ maxU64) : checkedAddBytes n m = .ok (n + m) := by
  unfold checkedAddBytes
  rw [checkedU64_nat (by omega), checkedU64_nat (by omega)]
  have hraise : decide (n > maxU64 - m) = false := decide_eq_false (by omega)
  simp [raiseIf, hraise, bind, Except.bind, pure, Except.pure]

theorem checkedAddBytes_eq_ok (h : checkedAddBytes n m = .ok k) : k = n + m := by
  unfold checkedAddBytes at h
  rw [bind_eq_ok] at h
  obtain ⟨left, hleft, h⟩ := h
  rw [bind_eq_ok] at h
  obtain ⟨right, hright, h⟩ := h
  rw [bind_eq_ok] at h
  obtain ⟨_, -, h⟩ := h
  rw [checkedU64_nat (by
    have := checkedU64_le hleft
    by_contra hn
    simp only [checkedU64] at hleft
    rw [if_pos (by omega)] at hleft
    cases hleft)] at hleft
  rw [checkedU64_nat (by
    have := checkedU64_le hright
    by_contra hn
    simp only [checkedU64] at hright
    rw [if_pos (by omega)] at hright
    cases hright)] at hright
  cases hleft
  cases hright
  exact (pure_eq_ok.mp h).symm

theorem checkedSubBytes_ok (hle : m ≤ n) (h : n ≤ maxU64) :
    checkedSubBytes n m = .ok (n - m) := by
  unfold checkedSubBytes
  rw [checkedU64_nat h, checkedU64_nat (by omega)]
  have hraise : decide (m > n) = false := decide_eq_false (by omega)
  simp [raiseIf, hraise, bind, Except.bind, pure, Except.pure]

end Checks

/-! ## Domains -/

/-- `MemoryDomain`, after `__post_init__` filled the watermarks in. -/
structure MemoryDomain where
  domainId : String
  budgetBytes : Nat
  reservedBytes : Nat
  pressureEnterBytes : Nat
  pressureExitBytes : Nat
  named : isIdentifier domainId = true
  budget : budgetBytes ≤ maxU64
  reserved : reservedBytes < budgetBytes
  enter : reservedBytes < pressureEnterBytes ∧ pressureEnterBytes ≤ budgetBytes
  exit : reservedBytes ≤ pressureExitBytes ∧ pressureExitBytes ≤ pressureEnterBytes
deriving DecidableEq, Repr

/-- `MemoryDomain.allocatable_bytes`; `checked_sub_bytes` cannot raise here. -/
def MemoryDomain.allocatableBytes (d : MemoryDomain) : Nat := d.budgetBytes - d.reservedBytes

/-- `MemoryReservation`. -/
structure MemoryReservation where
  domainId : String
  bytes : Nat
  named : isIdentifier domainId = true
  bounded : bytes ≤ maxU64
  positive : bytes ≠ 0
deriving DecidableEq, Repr

/-- `MemoryReservation(domain_id=.., bytes=..)`. -/
def MemoryReservation.postInit (domainId bytes : Arg) : Except Fault MemoryReservation := do
  let domainId ← identifier "domain_id" domainId
  let bytes ← checkedU64 "bytes" bytes
  if h : isIdentifier domainId = true ∧ bytes ≤ maxU64 ∧ bytes ≠ 0 then
    pure ⟨domainId, bytes, h.1, h.2.1, h.2.2⟩
  else .error (invalid "reservation bytes must be greater than zero")

/-- The order of the dataclass: by `domain_id`, then by `bytes`. -/
def MemoryReservation.le (r r' : MemoryReservation) : Prop :=
  r.domainId < r'.domainId ∨ (r.domainId = r'.domainId ∧ r.bytes ≤ r'.bytes)

instance decidableReservationLe : DecidableRel MemoryReservation.le := fun _ _ => by
  unfold MemoryReservation.le
  infer_instance

instance totalReservationLe : Std.Total MemoryReservation.le where
  total r r' := by
    unfold MemoryReservation.le
    rcases lt_trichotomy r.domainId r'.domainId with h | h | h
    · exact .inl (.inl h)
    · rcases Nat.le_total r.bytes r'.bytes with hb | hb
      · exact .inl (.inr ⟨h, hb⟩)
      · exact .inr (.inr ⟨h.symm, hb⟩)
    · exact .inr (.inl h)

instance transReservationLe : IsTrans MemoryReservation MemoryReservation.le where
  trans r₁ r₂ r₃ := by
    unfold MemoryReservation.le
    rintro (h | ⟨h, hb⟩) (h' | ⟨h', hb'⟩)
    · exact .inl (lt_trans h h')
    · exact .inl (h' ▸ h)
    · exact .inl (h ▸ h')
    · exact .inr ⟨h.trans h', Nat.le_trans hb hb'⟩

instance antisymmReservationLe : Std.Antisymm MemoryReservation.le where
  antisymm r r' := by
    unfold MemoryReservation.le
    rintro (h | ⟨h, hb⟩) (h' | ⟨h', hb'⟩)
    · exact absurd h' (lt_asymm h)
    · exact absurd h (h' ▸ lt_irrefl _)
    · exact absurd h' (h ▸ lt_irrefl _)
    · obtain ⟨id, bytes, _, _, _⟩ := r
      obtain ⟨id', bytes', _, _, _⟩ := r'
      obtain rfl : id = id' := h
      obtain rfl : bytes = bytes' := Nat.le_antisymm hb hb'
      rfl

/-- `DomainState`. -/
inductive DomainState where
  | healthy
  | pressure
  | quarantined
deriving DecidableEq, Repr

/-- `TelemetrySample`. -/
structure TelemetrySample where
  domainId : String
  sequence : Nat
  usedBytes : Nat
  totalBytes : Nat
  deviceError : Bool
  named : isIdentifier domainId = true
  sequenced : 0 < sequence ∧ sequence ≤ maxU64
  measured : 0 < totalBytes ∧ totalBytes ≤ maxU64 ∧ usedBytes ≤ totalBytes
deriving DecidableEq, Repr

/-- `_DomainRecord`. -/
structure DomainRecord where
  domain : MemoryDomain
  allocatedBytes : Nat := 0
  observedUsedBytes : Option Nat := none
  state : DomainState := .healthy
  quarantineEpoch : Nat := 0
  stateReason : Option String := none
  lastTelemetry : Option TelemetrySample := none
deriving DecidableEq, Repr

namespace DomainRecord

/-- The key of the record in `_domains`. -/
def id (d : DomainRecord) : String := d.domain.domainId

/-- `max(accounted, observed_used_bytes)`. -/
def load (d : DomainRecord) (accounted : Nat) : Nat :=
  match d.observedUsedBytes with
  | none => accounted
  | some used => max accounted used

/-- The watermark comparison: leaving pressure asks for more than entering it. -/
def underPressure (d : DomainRecord) (load : Nat) : Bool :=
  if d.state = .pressure then load > d.domain.pressureExitBytes
  else load ≥ d.domain.pressureEnterBytes

/-- The two assignments at the end of `_recompute_state_locked`. -/
def judged (d : DomainRecord) (pressed : Bool) : DomainRecord :=
  if pressed then
    { d with state := .pressure, stateReason := some "memory use crossed the pressure watermark" }
  else { d with state := .healthy, stateReason := none }

/-- `_recompute_state_locked`. -/
def recomputed (d : DomainRecord) : Except Fault DomainRecord :=
  if d.state = .quarantined then .ok d
  else do
    let accounted ← checkedAddBytes d.domain.reservedBytes d.allocatedBytes
    pure (d.judged (d.underPressure (d.load accounted)))

/-- `DomainSnapshot`, which is the record without its last sample. -/
structure Snapshot where
  domain : MemoryDomain
  allocatedBytes : Nat
  observedUsedBytes : Option Nat
  state : DomainState
  quarantineEpoch : Nat
  stateReason : Option String
deriving DecidableEq, Repr

/-- `_snapshot_locked`. -/
def snapshot (d : DomainRecord) : Snapshot :=
  ⟨d.domain, d.allocatedBytes, d.observedUsedBytes, d.state, d.quarantineEpoch, d.stateReason⟩

/-! ### One recomputation -/

/-- `recomputed` where the accounted bytes fit. -/
def recompute (d : DomainRecord) : DomainRecord :=
  if d.state = .quarantined then d
  else d.judged (d.underPressure (d.load (d.domain.reservedBytes + d.allocatedBytes)))

/-- The accounted bytes are within the budget. -/
def Within (d : DomainRecord) : Prop := d.allocatedBytes ≤ d.domain.allocatableBytes

variable {d : DomainRecord}

theorem Within.le (h : d.Within) : d.domain.reservedBytes + d.allocatedBytes ≤ maxU64 := by
  have := d.domain.budget
  have := d.domain.reserved
  unfold Within MemoryDomain.allocatableBytes at h
  omega

theorem recomputed_eq (h : d.Within) : d.recomputed = .ok d.recompute := by
  unfold recomputed recompute
  split
  · rfl
  · rw [checkedAddBytes_ok h.le]
    rfl

@[simp] theorem judged_domain {b : Bool} : (d.judged b).domain = d.domain := by
  cases b <;> rfl

@[simp] theorem judged_allocatedBytes {b : Bool} :
    (d.judged b).allocatedBytes = d.allocatedBytes := by
  cases b <;> rfl

@[simp] theorem judged_observed {b : Bool} :
    (d.judged b).observedUsedBytes = d.observedUsedBytes := by
  cases b <;> rfl

@[simp] theorem judged_judged {b c : Bool} : (d.judged b).judged c = d.judged c := by
  cases b <;> cases c <;> rfl

theorem judged_state {b : Bool} : (d.judged b).state = if b then .pressure else .healthy := by
  cases b <;> rfl

theorem judged_not_quarantined {b : Bool} : (d.judged b).state ≠ .quarantined := by
  cases b <;> simp [judged]

/-- A recomputation writes the state and its reason only. -/
theorem recompute_cases (d : DomainRecord) :
    (d.state = .quarantined ∧ d.recompute = d) ∨
    (d.state ≠ .quarantined ∧ ∃ b, d.recompute = d.judged b) := by
  unfold recompute
  by_cases h : d.state = .quarantined
  · exact .inl ⟨h, if_pos h⟩
  · exact .inr ⟨h, _, if_neg h⟩

@[simp] theorem recompute_domain : d.recompute.domain = d.domain := by
  obtain ⟨-, h⟩ | ⟨-, b, h⟩ := d.recompute_cases <;> simp [h]

@[simp] theorem recompute_allocatedBytes : d.recompute.allocatedBytes = d.allocatedBytes := by
  obtain ⟨-, h⟩ | ⟨-, b, h⟩ := d.recompute_cases <;> simp [h]

theorem recompute_quarantined : d.recompute.state = .quarantined ↔ d.state = .quarantined := by
  obtain ⟨hs, h⟩ | ⟨hs, b, h⟩ := d.recompute_cases
  · rw [h]
  · rw [h]
    exact ⟨fun he => absurd he judged_not_quarantined, fun he => absurd he hs⟩

/-- **The hysteresis settles**: with the exit watermark below the enter watermark, a second
recomputation finds what the first one left. -/
theorem recompute_recompute (hexit : d.domain.pressureExitBytes < d.domain.pressureEnterBytes) :
    d.recompute.recompute = d.recompute := by
  by_cases hq : d.state = .quarantined
  · have h : d.recompute = d := if_pos hq
    rw [h, h]
  · have h : d.recompute = _ := if_neg hq
    generalize hb : d.underPressure (d.load (d.domain.reservedBytes + d.allocatedBytes)) = b at h
    rw [h]
    unfold recompute
    rw [if_neg judged_not_quarantined, judged_judged, judged_domain, judged_allocatedBytes]
    congr 1
    -- entering leaves the load above the exit mark, leaving leaves it below the enter mark
    have hload : (d.judged b).load (d.domain.reservedBytes + d.allocatedBytes) =
        d.load (d.domain.reservedBytes + d.allocatedBytes) := by
      unfold load
      rw [judged_observed]
    rw [hload]
    generalize d.load (d.domain.reservedBytes + d.allocatedBytes) = load at hb
    unfold underPressure at hb ⊢
    rw [judged_state, judged_domain]
    cases b with
    | true =>
      split at hb
      · simpa using hb
      · simp at hb ⊢
        omega
    | false =>
      split at hb
      · simp at hb ⊢
        omega
      · simpa using hb

end DomainRecord

end LumaOS.Memory
