import LumaOS.Utc.Delivery
import Mathlib.Data.Real.Basic

/-!
# The interval used at dispatch contains true UTC

The keeper's candidate covers UTC at some instant between two readings of its clock. From there to
the interval a client acts on there are five roundings: both readings are floors, the keeper moves
the lower end back to the first of them, the projection counts whole milliseconds and rounds its
drift up, and the client adds the fraction of a millisecond that its last coordinate has.

An instant is true UTC in nanoseconds, and kernel boottime a function of it whose rate is within
100 ppm. `Captured` is what a reply promises about its origin: the upper end was not yet past at the
capture, and from any later whole millisecond on the lower end, moved by the measured age less the
drift, is in the past. The keeper establishes it (`serveReply_captured`), no call of the client
touches what it is about, and `Captured.contains` is the bound at one coordinate.

**`dispatch_sound`** is about every sequence of projections of one sample.
-/

namespace LumaOS.Utc

open LumaOS.Base LumaOS.Text LumaOS.Governance
open LumaOS.Policy (Statement)

/-! ## True time -/

/-- Kernel boottime in nanoseconds at each instant, within 100 ppm of true elapsed time. -/
structure BootClock where
  boot : ℝ → ℝ
  rate : ∀ s t : ℝ, s ≤ t → |(boot t - boot s) - (t - s)| ≤ (t - s) / 10000

/-- A reading in milliseconds is the floor of one in nanoseconds. -/
def BootClock.ShowsMs (c : BootClock) (t : ℝ) (ms : UInt64) : Prop :=
  ∃ ns : ℕ, (ns : ℝ) ≤ c.boot t ∧ c.boot t < ns + 1 ∧ ms.toNat = ns / 1000000

/-- The instant of a nanosecond coordinate. -/
def BootClock.At (c : BootClock) (t : ℝ) (ns : Nat) : Prop := c.boot t = ns

/-- The interval contains the instant. -/
def Contains (i : Interval) (t : ℝ) : Prop :=
  (i.lowerMs : ℝ) * 1000000 ≤ t ∧ t ≤ (i.upperMs : ℝ) * 1000000

section Clock

variable (c : BootClock) {s t : ℝ}

/-- A slow clock: true time runs ahead by at most 100 ppm. -/
theorem BootClock.elapsed_le (h : s ≤ t) : (t - s) * 9999 ≤ (c.boot t - c.boot s) * 10000 := by
  have hrate := (abs_le.mp (c.rate s t h)).1
  linarith

/-- A fast clock. -/
theorem BootClock.le_elapsed (h : s ≤ t) : (c.boot t - c.boot s) * 10000 ≤ (t - s) * 10001 := by
  have hrate := (abs_le.mp (c.rate s t h)).2
  linarith

theorem BootClock.mono (h : s ≤ t) : c.boot s ≤ c.boot t := by
  have helapsed := c.elapsed_le h
  linarith

theorem BootClock.ShowsMs.bounds {ms : UInt64} (h : c.ShowsMs t ms) :
    (ms.toNat : ℝ) * 1000000 ≤ c.boot t ∧ c.boot t < ((ms.toNat : ℝ) + 1) * 1000000 := by
  obtain ⟨ns, hle, hlt, hms⟩ := h
  have hlo : ms.toNat * 1000000 ≤ ns := by omega
  have hhi : ns + 1 ≤ (ms.toNat + 1) * 1000000 := by omega
  constructor
  · exact le_trans (by exact_mod_cast hlo) hle
  · exact lt_of_lt_of_le hlt (by exact_mod_cast hhi)

end Clock

/-! ## Rounded drift -/

/-- The drift of `age` milliseconds at 100 ppm is at least `age / 9999`. -/
theorem le_driftOf (age : Nat) : (age : ℝ) ≤ driftOf age 100 * 9999 := by
  have hceil : age * 100 ≤ driftOf age 100 * (1000000 - 100) := le_mul_divCeil _ (by omega)
  have hnat : age ≤ driftOf age 100 * 9999 := by omega
  exact_mod_cast hnat

open DeliverySample in
/-- The greatest real age of what the clock measured as `ageNs`. -/
theorem le_realUpperNs (ageNs : Nat) : (ageNs : ℝ) * 10000 ≤ realUpperNs ageNs * 9999 := by
  have hceil : ageNs * 100 ≤ divCeil (ageNs * 100) 999900 * 999900 := le_mul_divCeil _ (by omega)
  have hnat : ageNs * 10000 ≤ realUpperNs ageNs * 9999 := by
    unfold realUpperNs
    omega
  exact_mod_cast hnat

/-! ## The origin of a sample -/

/-- What the interval of a reply promises about the instant `origin` of its capture. -/
structure Captured (c : BootClock) (raw : Interval) (capturedMs : UInt64) (origin : ℝ) : Prop where
  reading : (capturedMs.toNat : ℝ) * 1000000 ≤ c.boot origin
  upper : origin ≤ (raw.upperMs : ℝ) * 1000000
  lower : ∀ (t : ℝ) (ms : Nat), capturedMs.toNat ≤ ms → (ms : ℝ) * 1000000 ≤ c.boot t →
    ((raw.lowerMs : ℝ) + (ms - capturedMs.toNat : Nat) -
      driftOf (ms - capturedMs.toNat) 100) * 1000000 ≤ t

section Origin

variable {c : BootClock} {raw : Interval} {capturedMs : UInt64} {origin t : ℝ}

/-- **The real age of a sample is within the bound computed from its measured age.** -/
theorem Captured.elapsed_le (h : Captured c raw capturedMs origin) {ns : Nat}
    (hle : capturedMs.toNat * 1000000 ≤ ns) (ht : c.At t ns) :
    t - origin ≤ DeliverySample.realUpperNs (ns - capturedMs.toNat * 1000000) := by
  have hage := le_realUpperNs (ns - capturedMs.toNat * 1000000)
  rw [Nat.cast_sub hle] at hage
  push_cast at hage
  obtain hlate | hearly := le_total origin t
  · have helapsed := c.elapsed_le hlate
    rw [ht] at helapsed
    have hreading := h.reading
    linarith
  · have hnonneg : (0 : ℝ) ≤ DeliverySample.realUpperNs (ns - capturedMs.toNat * 1000000) :=
      Nat.cast_nonneg _
    linarith

/-- **One projection is sound**: the lower end counts whole milliseconds, the upper end the greatest
real age, rounded up. -/
theorem Captured.contains (h : Captured c raw capturedMs origin) {ns : Nat} {i : Interval}
    (hle : capturedMs.toNat ≤ ns / 1000000)
    (hlower : i.lowerMs ≤ raw.lowerMs + (ns / 1000000 - capturedMs.toNat : Nat) -
      driftOf (ns / 1000000 - capturedMs.toNat) 100)
    (hupper : raw.upperMs * 1000000 +
      DeliverySample.realUpperNs (ns - capturedMs.toNat * 1000000) ≤ i.upperMs * 1000000)
    (ht : c.At t ns) : Contains i t := by
  constructor
  · have hms : ((ns / 1000000 : Nat) : ℝ) * 1000000 ≤ c.boot t := by
      rw [ht]
      exact_mod_cast (by omega : ns / 1000000 * 1000000 ≤ ns)
    have hlow := h.lower t _ hle hms
    have hcast : (i.lowerMs : ℝ) ≤ (raw.lowerMs : ℝ) + (ns / 1000000 - capturedMs.toNat : Nat) -
        driftOf (ns / 1000000 - capturedMs.toNat) 100 := by
      exact_mod_cast hlower
    linarith
  · have helapsed := h.elapsed_le (by omega) ht
    have horigin := h.upper
    have hcast : (raw.upperMs : ℝ) * 1000000 +
        DeliverySample.realUpperNs (ns - capturedMs.toNat * 1000000) ≤
        (i.upperMs : ℝ) * 1000000 := by
      exact_mod_cast hupper
    linarith

/-- **The keeper's expansion.** A candidate that contained an instant of the bracket, moved back by
the span and its margins, was in the past at every whole millisecond from the first reading on. -/
theorem lower_moved_back {first inside last : ℝ} {clock after : UInt64}
    (hfirst : c.ShowsMs first clock) (hlast : c.ShowsMs last after) (hin : inside ≤ last)
    (hle : clock.toNat ≤ after.toNat) {ms : Nat} (hms : clock.toNat ≤ ms)
    (ht : (ms : ℝ) * 1000000 ≤ c.boot t) :
    inside + (((ms - clock.toNat : Nat) : ℝ) - driftOf (ms - clock.toNat) 100 -
      ((after.toNat - clock.toNat : Nat) + 2 +
        driftOf (after.toNat - clock.toNat) 100)) * 1000000 ≤ t := by
  have hspan := le_driftOf (after.toNat - clock.toNat)
  have hdrift := le_driftOf (ms - clock.toNat)
  have hboot := (c.mono hin).trans hlast.bounds.2.le
  have hreading := hfirst.bounds.1
  rw [Nat.cast_sub hle] at hspan ⊢
  rw [Nat.cast_sub hms] at hdrift ⊢
  have hspan₀ : (clock.toNat : ℝ) ≤ after.toNat := by exact_mod_cast hle
  have hms₀ : (clock.toNat : ℝ) ≤ ms := by exact_mod_cast hms
  generalize (driftOf (after.toNat - clock.toNat) 100 : ℝ) = spanDrift at *
  generalize (driftOf (ms - clock.toNat) 100 : ℝ) = drift at *
  obtain hlate | hearly := le_total inside t
  · -- the clock advanced by at least the whole milliseconds between the two
    have helapsed := c.le_elapsed hlate
    have hahead : ((ms : ℝ) - after.toNat - 1) * 1000000 ≤ c.boot t - c.boot inside := by linarith
    linarith
  · -- the bracket ended after the coordinate
    have helapsed := c.elapsed_le hearly
    have hbehind : c.boot inside - c.boot t ≤ ((after.toNat : ℝ) + 1 - ms) * 1000000 := by linarith
    linarith

end Origin

/-! ## What the calls establish -/

section Calls

variable {fixed : Result ApprovedPolicy} {digest : HistoryBinding → String}
  {c : BootClock} {origin : ℝ}

/-- **The reply of the keeper** is captured at its first reading, and no wider than the policy. -/
theorem serveReply_captured {keeper nonce : String} {sequence : UInt64} {r : Answering}
    {reply : Reply} (h : serveReply keeper nonce sequence r = .ok reply) {first inside last : ℝ}
    (hfirst : ∀ clock, r.clock = .ok clock → c.ShowsMs first clock.boottimeMs)
    (hlast : ∀ clock, r.after = .ok clock → c.ShowsMs last clock.boottimeMs)
    (hin : first ≤ inside ∧ inside ≤ last)
    (hcandidate : ∀ i, r.candidate = .ok (some i) → Contains i inside) :
    Captured c ⟨reply.earliestMs, reply.latestMs⟩ reply.capturedBoottimeMs first ∧
      reply.latestMs - reply.earliestMs ≤ 500 := by
  simp only [serveReply, bind_eq_ok, okOr_eq_ok, refuseIf_eq_ok, pure_eq_ok, i64Sub_eq_some,
    i64OfNat_eq_some, Option.filter_eq_some_iff, u64Sub_eq_some] at h
  obtain ⟨runtime, -, clock, hclock, candidate, hcand, utc, rfl, after, hafter, span,
    ⟨⟨hle, rfl⟩, -⟩, _, ⟨-, rfl⟩, _, ⟨-, rfl⟩, lower, ⟨-, rfl⟩, i, hnew, _, hwidth, _, -, _, -,
    rfl⟩ := h
  obtain rfl := interval_new_eq_ok hnew
  have hle := UInt64.le_iff_toNat_le.mp hle
  have hfirst := hfirst clock hclock
  obtain ⟨hlow, hup⟩ := hcandidate utc hcand
  rw [decide_eq_false_iff_not] at hwidth
  refine ⟨⟨hfirst.bounds.1, hin.1.trans hup, fun t ms hms ht => ?_⟩, not_lt.mp hwidth⟩
  have hback := lower_moved_back hfirst (hlast after hafter) hin.2 hle hms ht
  rw [UInt64.toNat_sub_of_le _ _ (UInt64.le_iff_toNat_le.mpr hle)]
  push_cast
  linarith

/-- What projecting a delivered interval gives. -/
theorem projectDelivered_eq_ok {context : Statement} {raw i : Interval} {observed now : UInt64}
    (h : projectDelivered context raw observed now = .ok i) :
    observed.toNat ≤ now.toNat ∧
    now.toNat - observed.toNat + driftOf (now.toNat - observed.toNat) 100 ≤ 250 ∧
    i.lowerMs = raw.lowerMs + (now.toNat - observed.toNat : Nat) -
      driftOf (now.toNat - observed.toNat) 100 ∧
    i.upperMs = raw.upperMs + (now.toNat - observed.toNat : Nat) +
      driftOf (now.toNat - observed.toNat) 100 := by
  simp only [projectDelivered, bind_eq_ok] at h
  obtain ⟨epoch, -, hproject⟩ := h
  obtain ⟨-, hproject⟩ := project_eq_ok hproject
  exact ⟨hproject.past, hproject.fresh, hproject.lower, hproject.upper⟩

/-- A delivery at the coordinate `ns`, read back. -/
structure Dispatched (s : DeliverySample) (floorMs : Int) (ns : Nat) (i : Interval) : Prop where
  past : s.capturedBoottimeMs.toNat ≤ ns / 1000000
  fresh : DeliverySample.realUpperNs (ns - s.capturedBoottimeMs.toNat * 1000000) ≤ 250000000
  lower : i.lowerMs = s.raw.lowerMs + (ns / 1000000 - s.capturedBoottimeMs.toNat : Nat) -
    driftOf (ns / 1000000 - s.capturedBoottimeMs.toNat) 100
  upper : s.raw.upperMs * 1000000 +
    DeliverySample.realUpperNs (ns - s.capturedBoottimeMs.toNat * 1000000) ≤ i.upperMs * 1000000
  floor : floorMs ≤ i.lowerMs
  width : i.upperMs - i.lowerMs ≤ 500

theorem sampleProject_eq_ok {s : DeliverySample} {initial now : Clock} {floorMs : Int}
    {result : Observation} (h : s.project fixed initial now floorMs = .ok result) :
    projectDelivered s.context s.raw s.capturedBoottimeMs now.boottimeMs = .ok result.utc ∧
      floorMs ≤ result.utc.lowerMs := by
  simp only [DeliverySample.project, bind_eq_ok, refuseIf_eq_ok, pure_eq_ok, Bool.or_eq_false_iff,
    decide_eq_false_iff_not, not_lt] at h
  obtain ⟨_, -, _, -, _, -, utc, hutc, _, ⟨hfloor, -⟩, rfl⟩ := h
  exact ⟨hutc, hfloor⟩

theorem dispatch_eq_ok {s : DeliverySample} {initial : Clock} {floorMs : Int}
    {coordinate : ProjectionClock} {result : Observation}
    (h : s.dispatch fixed initial floorMs coordinate = .ok result) :
    Dispatched s floorMs coordinate.boottimeNs.toNat result.utc := by
  simp only [DeliverySample.dispatch, bind_eq_ok, refuseIf_eq_ok, pure_eq_ok, okOr_eq_ok,
    u64Sub_eq_some, i64OfNat_eq_some, i64Add_eq_some, decide_eq_false_iff_not, not_lt] at h
  obtain ⟨_, -, _, -, inner, hinner, ageMs, ⟨-, rfl⟩, _, hfresh, _, ⟨-, rfl⟩, upper, ⟨-, rfl⟩, _,
    hwidth, i, hnew, rfl⟩ := h
  obtain rfl := interval_new_eq_ok hnew
  obtain ⟨hproject, hfloor⟩ := sampleProject_eq_ok hinner
  obtain ⟨hpast, -, hlower, -⟩ := projectDelivered_eq_ok hproject
  have hms : coordinate.coordinate.boottimeMs.toNat = coordinate.boottimeNs.toNat / 1000000 := by
    rw [ProjectionClock.coordinate, UInt64.toNat_div]
    rfl
  have hage : (coordinate.coordinate.boottimeMs - s.capturedBoottimeMs).toNat * 1000000 +
      coordinate.boottimeNs.toNat % 1000000 =
      coordinate.boottimeNs.toNat - s.capturedBoottimeMs.toNat * 1000000 := by
    rw [UInt64.toNat_sub_of_le _ _ (UInt64.le_iff_toNat_le.mpr hpast), hms]
    omega
  rw [hms] at hpast hlower
  rw [hage] at hfresh hwidth ⊢
  have hceil := le_mul_divCeil (DeliverySample.realUpperNs
    (coordinate.boottimeNs.toNat - s.capturedBoottimeMs.toNat * 1000000)) (b := 1000000) (by omega)
  refine ⟨hpast, hfresh, hlower, ?_, hfloor, hwidth⟩
  dsimp only
  have hmax := le_max_left (s.raw.upperMs + (divCeil (DeliverySample.realUpperNs
    (coordinate.boottimeNs.toNat - s.capturedBoottimeMs.toNat * 1000000)) 1000000 : Nat))
    inner.utc.upperMs
  omega

/-- A failed projection leaves the sample as it was, delivered interval and last clock included. -/
theorem finishProjection_spec (s : DeliverySample) (initial : Clock) (floorMs : Int)
    (coordinate : ProjectionClock) (finish : ProjectionClock → Result Unit) :
    (DeliverySample.finishProjection fixed initial floorMs coordinate finish).Spec s
      fun result s' => Dispatched s floorMs coordinate.boottimeNs.toNat result.utc ∧
        s'.raw = s.raw ∧ s'.capturedBoottimeMs = s.capturedBoottimeMs := by
  refine Mut.spec_bind_get (Mut.spec_bind_lift fun result hresult => ?_)
  refine Mut.spec_bind_lift fun _ _ => ?_
  refine Mut.spec_of_exec rfl ?_
  exact ⟨dispatch_eq_ok hresult, rfl, rfl⟩

/-- What a client holds of the reply it admitted, and what it returned for it. -/
structure Admitted (reply : Reply) (binding : HistoryBinding) (finalClock : Clock) (i : Interval)
    (s : DeliverySample) : Prop where
  raw : s.raw = ⟨reply.earliestMs, reply.latestMs⟩
  captured : s.capturedBoottimeMs = reply.capturedBoottimeMs
  projected : projectDelivered reply.context s.raw reply.capturedBoottimeMs finalClock.boottimeMs =
    .ok i
  floor : binding.historyFloorMs ≤ i.lowerMs
  width : i.upperMs - i.lowerMs ≤ 500

theorem admitReply_eq_ok {binding : HistoryBinding} {history : String} {deadline : Nat} {reply : Reply}
    {q : QueryReads} {c c' : Client} {result : Observation}
    (h : Client.admitReply fixed binding history deadline reply q c = .ok (result, c')) :
    c'.history = some history ∧ ∃ finalClock s, q.finalClock = .ok finalClock ∧
      c'.sample = some s ∧ Admitted reply binding finalClock result.utc s := by
  simp only [Client.admitReply, bind_eq_ok, refuseIf_eq_ok, pure_eq_ok, Bool.or_eq_false_iff,
    decide_eq_false_iff_not, not_lt, Prod.mk.injEq] at h
  obtain ⟨_, -, _, -, raw, hnew, _, -, _, -, _, -, _, -, _, -, _, -, _, -, _, -, _, -, finalClock,
    hfinal, utc, hproject, _, ⟨⟨hfloor, hwidth⟩, -⟩, rfl, rfl⟩ := h
  obtain rfl := interval_new_eq_ok hnew
  exact ⟨rfl, finalClock, _, hfinal, rfl, rfl, rfl, hproject, hfloor, hwidth⟩

theorem current_eq_ok {binding : HistoryBinding} {q : QueryReads} {c c' : Client}
    {result : Observation}
    (h : Mut.exec (Client.current fixed digest binding q) c = (.ok result, c')) :
    c'.history = some (digest binding) ∧ ∃ reply finalClock s, q.reply = .ok reply ∧
      q.finalClock = .ok finalClock ∧ c'.sample = some s ∧
      Admitted reply binding finalClock result.utc s := by
  rw [Client.current, Mut.exec_bind_get, Mut.exec_bind_lift_eq_ok] at h
  obtain ⟨-, -, h⟩ := h
  rw [Mut.exec_onError_eq_ok] at h
  simp only [Client.currentInner, Mut.exec_bind_get, Mut.exec_bind_eq_ok, Mut.exec_lift,
    Mut.exec_set, Mut.exec_pure, Prod.mk.injEq, Except.ok.injEq] at h
  obtain ⟨_, _, -, _, _, -, _, _, -, _, _, -, _, _, -, _, _, -, _, c₁, -, _, _, -, reply, _,
    ⟨hreply, -⟩, _, _, -, _, _, -, ⟨observation, next⟩, _, ⟨hadmission, -⟩, _, _, ⟨-, rfl⟩, rfl, rfl⟩ := h
  obtain ⟨hhistory, finalClock, s, hfinal, hsample, hadmitted⟩ := admitReply_eq_ok hadmission
  exact ⟨hhistory, reply, finalClock, s, hreply, hfinal, hsample, hadmitted⟩

/-- The parts of a client that no projection touches. -/
def Client.dropSample (c : Client) : Client := { c with fenced := true, sample := none }

/-- What one call of `project_after_checks` can do: refuse on a fenced client, fence it and drop
its sample, or deliver from the sample it holds, whose origin it keeps. -/
inductive Projection (digest : HistoryBinding → String) (binding : HistoryBinding)
    (capture : Capture) (c : Client) : Result Observation → Client → Prop
  | refused (hfenced : c.fenced = true) :
      Projection digest binding capture c (refuse Client.fencedMessage) c
  | failed (e : Stop) (hfenced : c.fenced = false) :
      Projection digest binding capture c (.error e) c.dropSample
  | delivered {s s' : DeliverySample} {coordinate : ProjectionClock} {result : Observation}
      (hfenced : c.fenced = false) (hsample : c.sample = some s)
      (hhistory : c.history = some (digest binding))
      (hcoordinate : ProjectionClock.capture capture = .ok coordinate)
      (hdispatched : Dispatched s binding.historyFloorMs coordinate.boottimeNs.toNat result.utc)
      (hraw : s'.raw = s.raw) (hcaptured : s'.capturedBoottimeMs = s.capturedBoottimeMs) :
      Projection digest binding capture c (.ok result) { c with sample := some s' }

theorem checkDispatch_eq_ok {binding : HistoryBinding} {previous : Observation}
    {r : ProjectionReads} {c : Client} {found : DeliverySample × ProjectionClock}
    (h : Client.checkDispatch fixed digest binding previous r c = .ok found) :
    c.sample = some found.1 ∧ c.history = some (digest binding) ∧
      ProjectionClock.capture r.capture = .ok found.2 := by
  simp only [Client.checkDispatch, bind_eq_ok, refuseIf_eq_ok, pure_eq_ok, okOr_eq_ok,
    bne_eq_false_iff_eq] at h
  obtain ⟨_, -, sample, hsample, _, hhistory, _, -, _, -, _, -, _, -, _, -, _, -, _, -, _, -, _, -,
    _, -, _, -, coordinate, hcoordinate, _, -, rfl⟩ := h
  exact ⟨hsample, hhistory, hcoordinate⟩

theorem projectAfterChecks_yields (binding : HistoryBinding) (previous : Observation)
    (r : ProjectionReads) (finish : ProjectionClock → Result Unit) (c : Client) :
    (Client.projectAfterChecks fixed digest binding previous r finish).Yields c
      (Projection digest binding r.capture c) := by
  refine Mut.yields_bind_get (Mut.yields_bind_lift (fun e he => ?_) fun _ hopen => ?_)
  · cases hfenced : c.fenced with
    | true =>
      rw [hfenced] at he
      cases he
      exact .refused hfenced
    | false =>
      rw [hfenced] at he
      cases he
  rw [refuseIf_eq_ok] at hopen
  -- a failure leaves the client but for the sample that is dropped
  suffices hinner : (Client.projectInner fixed digest binding previous r finish).Yields c
      fun result c' => match result with
        | .ok _ => Projection digest binding r.capture c result c'
        | .error _ => Client.dropSample c' = c.dropSample by
    refine Mut.yields_onError (fun result c' hc => ?_) fun e c' hc => ?_
    · unfold Mut.Yields at hinner
      rw [hc] at hinner
      exact hinner
    · unfold Mut.Yields at hinner
      rw [hc] at hinner
      have hdropped : Client.dropSample c' = c.dropSample := hinner
      show Projection _ _ _ _ _ (Client.dropSample c')
      rw [hdropped]
      exact .failed e hopen
  refine Mut.yields_bind_get (Mut.yields_bind_lift (fun _ _ => rfl) fun found hfound => ?_)
  obtain ⟨hsample, hhistory, hcoordinate⟩ := checkDispatch_eq_ok hfound
  obtain ⟨s, coordinate⟩ := found
  have hspec := @finishProjection_spec fixed s c.initial binding.historyFloorMs coordinate finish
  unfold Mut.Yields
  dsimp only
  rw [Mut.exec_focus]
  rcases he : Mut.exec (DeliverySample.finishProjection fixed c.initial binding.historyFloorMs
    coordinate finish) s with ⟨e | result, s'⟩
  · rfl
  · obtain ⟨hdispatched, hraw, hcaptured⟩ := hspec.of_ok he
    exact .delivered hopen hsample hhistory hcoordinate hdispatched hraw hcaptured

end Calls

/-! ## Every later projection -/

/-- One call of `Client::project_after_checks`. -/
structure ProjectCall where
  binding : HistoryBinding
  previous : Observation
  reads : ProjectionReads
  finish : ProjectionClock → Result Unit

section Runs

variable (fixed : Result ApprovedPolicy) (digest : HistoryBinding → String)

/-- A query: its result, and the client it leaves. -/
def Client.query (c : Client) (binding : HistoryBinding) (q : QueryReads) :
    Result Observation × Client :=
  Mut.exec (Client.current fixed digest binding q) c

/-- A projection: its result, and the client it leaves. -/
def ProjectCall.exec (call : ProjectCall) (c : Client) : Result Observation × Client :=
  Mut.exec (Client.projectAfterChecks fixed digest call.binding call.previous call.reads
    call.finish) c

/-- The client after a sequence of projections. -/
def Client.after (c : Client) (calls : List ProjectCall) : Client :=
  calls.foldl (fun c call => (call.exec fixed digest c).2) c

variable {fixed digest}

variable {binding : HistoryBinding} {c c' : Client} {capturedMs : UInt64}

theorem ProjectCall.projection (call : ProjectCall) (c : Client) :
    Projection digest call.binding call.reads.capture c (call.exec fixed digest c).1
      (call.exec fixed digest c).2 :=
  projectAfterChecks_yields call.binding call.previous call.reads call.finish c

/-- The client still holds the origin it admitted, or nothing. -/
structure Traces (digest : HistoryBinding → String) (binding : HistoryBinding) (raw : Interval)
    (capturedMs : UInt64) (c : Client) : Prop where
  history : c.history = some (digest binding)
  sample : ∀ s, c.sample = some s → s.raw = raw ∧ s.capturedBoottimeMs = capturedMs

theorem Traces.projection {binding binding' : HistoryBinding} {raw : Interval} {capture : Capture}
    {result : Result Observation} (h : Traces digest binding raw capturedMs c)
    (hstep : Projection digest binding' capture c result c') :
    Traces digest binding raw capturedMs c' := by
  cases hstep with
  | refused _ => exact h
  | failed e _ => exact ⟨h.history, fun s hs => by cases hs⟩
  | delivered _ hsample _ _ _ hraw hcaptured =>
    refine ⟨h.history, fun s hs => ?_⟩
    cases hs
    rw [hraw, hcaptured]
    exact h.sample _ hsample

theorem Traces.after {raw : Interval} (calls : List ProjectCall)
    (h : Traces digest binding raw capturedMs c) :
    Traces digest binding raw capturedMs (c.after fixed digest calls) := by
  induction calls generalizing c with
  | nil => exact h
  | cons call calls ih => exact ih (h.projection (call.projection c))

/-- A fenced client refuses a projection and is left as it was. -/
theorem ProjectCall.exec_of_fenced (call : ProjectCall) (h : c.fenced = true) :
    call.exec fixed digest c = (refuse Client.fencedMessage, c) := by
  unfold ProjectCall.exec Client.projectAfterChecks
  rw [Mut.exec_bind_get, h]
  rfl

theorem Client.query_of_fenced (binding : HistoryBinding) (q : QueryReads) (h : c.fenced = true) :
    c.query fixed digest binding q = (refuse Client.fencedMessage, c) := by
  unfold Client.query Client.current
  rw [Mut.exec_bind_get, h]
  rfl

theorem Client.after_of_fenced (calls : List ProjectCall) (h : c.fenced = true) :
    c.after fixed digest calls = c := by
  induction calls with
  | nil => rfl
  | cons call calls ih =>
    show Client.after fixed digest (call.exec fixed digest c).2 calls = c
    rw [call.exec_of_fenced h]
    exact ih

/-- What one projection delivers is sound at its coordinate. -/
theorem Projection.sound {clock : BootClock} {binding binding' : HistoryBinding} {raw : Interval}
    {origin : ℝ} {capture : Capture} {result : Observation}
    (hcaptured : Captured clock raw capturedMs origin)
    (htraces : Traces digest binding raw capturedMs c)
    (h : Projection digest binding' capture c (.ok result) c') :
    digest binding' = digest binding ∧ binding'.historyFloorMs ≤ result.utc.lowerMs ∧
      result.utc.upperMs - result.utc.lowerMs ≤ 500 ∧
      ∃ coordinate, ProjectionClock.capture capture = .ok coordinate ∧
        ∀ t, clock.At t coordinate.boottimeNs.toNat →
          Contains result.utc t ∧ t - origin ≤ 250000000 := by
  cases h with
  | delivered _ hsample hhistory hcoordinate hdispatched _ _ =>
    obtain ⟨rfl, rfl⟩ := htraces.sample _ hsample
    refine ⟨Option.some.inj (hhistory.symm.trans htraces.history), hdispatched.floor,
      hdispatched.width, _, hcoordinate, fun t ht => ⟨?_, ?_⟩⟩
    · exact hcaptured.contains hdispatched.past hdispatched.lower.le hdispatched.upper ht
    · have hpast := hdispatched.past
      have hfresh := hdispatched.fresh
      have helapsed := hcaptured.elapsed_le (by omega) ht
      exact helapsed.trans (by exact_mod_cast hfresh)

/-- A failed projection has fenced the client. -/
theorem Projection.fences {capture : Capture} {e : Stop}
    (h : Projection digest binding capture c (.error e) c') :
    (c' = c ∨ c' = { c with fenced := true, sample := none }) ∧ c'.fenced = true := by
  cases h with
  | refused hfenced => exact ⟨.inl rfl, hfenced⟩
  | failed _ _ => exact ⟨.inr rfl, rfl⟩

/-- What a query returns is sound at the millisecond it was projected to. -/
theorem Admitted.sound {clock : BootClock} {reply : Reply} {finalClock : Clock} {i : Interval}
    {s : DeliverySample} {origin t : ℝ}
    (hcaptured : Captured clock ⟨reply.earliestMs, reply.latestMs⟩ reply.capturedBoottimeMs origin)
    (h : Admitted reply binding finalClock i s)
    (ht : clock.At t (finalClock.boottimeMs.toNat * 1000000)) :
    Contains i t ∧ t - origin ≤ 250000000 := by
  have hproject := h.projected
  rw [h.raw] at hproject
  obtain ⟨hpast, hfresh, hlower, hupper⟩ := projectDelivered_eq_ok hproject
  have hage : finalClock.boottimeMs.toNat * 1000000 - reply.capturedBoottimeMs.toNat * 1000000 =
      (finalClock.boottimeMs.toNat - reply.capturedBoottimeMs.toNat) * 1000000 := by omega
  -- in whole milliseconds the greatest real age is the age and its drift
  have hreal : DeliverySample.realUpperNs
      ((finalClock.boottimeMs.toNat - reply.capturedBoottimeMs.toNat) * 1000000) ≤
      (finalClock.boottimeMs.toNat - reply.capturedBoottimeMs.toNat +
        driftOf (finalClock.boottimeMs.toNat - reply.capturedBoottimeMs.toNat) 100) * 1000000 := by
    have hceil : (finalClock.boottimeMs.toNat - reply.capturedBoottimeMs.toNat) * 100 ≤
        driftOf (finalClock.boottimeMs.toNat - reply.capturedBoottimeMs.toNat) 100 * 999900 :=
      le_mul_divCeil _ (by omega)
    unfold DeliverySample.realUpperNs divCeil
    omega
  rw [← hage] at hreal
  have hdiv : finalClock.boottimeMs.toNat * 1000000 / 1000000 = finalClock.boottimeMs.toNat := by
    omega
  constructor
  · refine hcaptured.contains (by omega) ?_ ?_ ht
    · rw [hdiv, hlower]
    · rw [hupper]
      dsimp only
      omega
  · have helapsed := hcaptured.elapsed_le (by omega) ht
    have hbound := hreal.trans (Nat.mul_le_mul_right 1000000 hfresh)
    exact helapsed.trans (by exact_mod_cast hbound)

/-- **The UTC interval used at dispatch is sound end to end.** A candidate that contained UTC at
some instant between the two readings around it gives a reply, an observation and any number of
projections of which each contains UTC at its coordinate, is at most 500 ms wide, starts at or above
the floor of the history it is bound to, and is at most 250 ms of real time from the capture. A call
that fails changes nothing that was delivered, and fences the client for good. -/
theorem dispatch_sound (fixed : Result ApprovedPolicy) (digest : HistoryBinding → String)
    (clock : BootClock) (keeper nonce : String) (sequence : UInt64) (r : Answering) (reply : Reply)
    (hserve : serveReply keeper nonce sequence r = .ok reply) (first inside last : ℝ)
    (hfirst : ∀ reading, r.clock = .ok reading → clock.ShowsMs first reading.boottimeMs)
    (hlast : ∀ reading, r.after = .ok reading → clock.ShowsMs last reading.boottimeMs)
    (hin : first ≤ inside ∧ inside ≤ last)
    (hcandidate : ∀ i, r.candidate = .ok (some i) → Contains i inside)
    (c : Client) (binding : HistoryBinding) (q : QueryReads) (hreply : q.reply = .ok reply)
    (observation : Observation) (hquery : (c.query fixed digest binding q).1 = .ok observation) :
    (Contains ⟨reply.earliestMs, reply.latestMs⟩ first ∧
      reply.latestMs - reply.earliestMs ≤ 500) ∧
    (binding.historyFloorMs ≤ observation.utc.lowerMs ∧
      observation.utc.upperMs - observation.utc.lowerMs ≤ 500 ∧
      ∃ finalClock, q.finalClock = .ok finalClock ∧
        ∀ t, clock.At t (finalClock.boottimeMs.toNat * 1000000) →
          Contains observation.utc t ∧ t - first ≤ 250000000) ∧
    ∀ (calls : List ProjectCall) (call : ProjectCall) (now : Client),
      now = (c.query fixed digest binding q).2.after fixed digest calls →
      (∀ result, (call.exec fixed digest now).1 = .ok result →
        digest call.binding = digest binding ∧
        call.binding.historyFloorMs ≤ result.utc.lowerMs ∧
        result.utc.upperMs - result.utc.lowerMs ≤ 500 ∧
        ∃ coordinate, ProjectionClock.capture call.reads.capture = .ok coordinate ∧
          ∀ t, clock.At t coordinate.boottimeNs.toNat →
            Contains result.utc t ∧ t - first ≤ 250000000) ∧
      (∀ coordinate s e s', Mut.exec (DeliverySample.finishProjection fixed now.initial
        call.binding.historyFloorMs coordinate call.finish) s = (.error e, s') → s' = s) ∧
      ∀ e next, call.exec fixed digest now = (.error e, next) →
        (next = now ∨ next = { now with fenced := true, sample := none }) ∧ next.fenced = true ∧
        ∀ later, next.after fixed digest later = next ∧
          (∀ call' : ProjectCall, call'.exec fixed digest next = (refuse Client.fencedMessage, next)) ∧
          ∀ binding' q', next.query fixed digest binding' q' =
            (refuse Client.fencedMessage, next) := by
  obtain ⟨hcaptured, hreplyWidth⟩ := serveReply_captured hserve hfirst hlast hin hcandidate
  have hcurrent : c.query fixed digest binding q =
      (.ok observation, (c.query fixed digest binding q).2) := Prod.ext hquery rfl
  obtain ⟨hhistory, reply', finalClock, s, hreply', hfinal, hsample, hadmitted⟩ :=
    current_eq_ok hcurrent
  obtain rfl : reply' = reply := Except.ok.inj (hreply'.symm.trans hreply)
  have htraces : Traces digest binding ⟨reply'.earliestMs, reply'.latestMs⟩
      reply'.capturedBoottimeMs (c.query fixed digest binding q).2 := by
    refine ⟨hhistory, fun t ht => ?_⟩
    rw [hsample] at ht
    cases ht
    exact ⟨hadmitted.raw, hadmitted.captured⟩
  have horigin : Contains ⟨reply'.earliestMs, reply'.latestMs⟩ first := by
    refine ⟨?_, hcaptured.upper⟩
    have hlow := hcaptured.lower first reply'.capturedBoottimeMs.toNat le_rfl hcaptured.reading
    rw [Nat.sub_self] at hlow
    simpa [driftOf, divCeil] using hlow
  refine ⟨⟨horigin, hreplyWidth⟩, ⟨hadmitted.floor, hadmitted.width, finalClock, hfinal,
    fun t ht => hadmitted.sound hcaptured ht⟩, fun calls call now hnow => ⟨?_, ?_, ?_⟩⟩
  · intro result hresult
    have hstep : Projection digest call.binding call.reads.capture now
        (call.exec fixed digest now).1 (call.exec fixed digest now).2 := call.projection now
    rw [hresult, hnow] at hstep
    exact hstep.sound hcaptured (htraces.after calls)
  · intro coordinate s e s' hexec
    exact (finishProjection_spec s now.initial _ coordinate call.finish).of_error hexec
  · intro e next hexec
    have hstep : Projection digest call.binding call.reads.capture now
        (call.exec fixed digest now).1 (call.exec fixed digest now).2 := call.projection now
    rw [hexec] at hstep
    obtain ⟨hnext, hfenced⟩ := hstep.fences
    exact ⟨hnext, hfenced, fun later => ⟨Client.after_of_fenced later hfenced,
      fun call' => call'.exec_of_fenced hfenced,
      fun binding' q' => Client.query_of_fenced binding' q' hfenced⟩⟩

end Runs

/-! ### One delivery -/

/-- A boottime that started with UTC and runs at its rate. -/
def BootClock.exact : BootClock where
  boot t := t
  rate s t h := by
    rw [sub_self, abs_zero]
    linarith

/-- A boottime as slow as the model allows. -/
noncomputable def BootClock.slow (boot₀ origin : ℝ) : BootClock where
  boot t := boot₀ + (t - origin) * (9999 / 10000)
  rate s t h := by
    rw [abs_le]
    constructor <;> linarith

def oneMs (ms : UInt64) : Clock := ⟨ms, ms, 0, 0⟩

def sampleAnswering : Answering where
  runtime := .ok (hex (List.replicate 32 1))
  clock := .ok (oneMs 1000000)
  candidate := .ok (some ⟨999995, 1000005⟩)
  after := .ok (oneMs 1000001)
  producer := ⟨Vector.replicate 16 1, 1, 1, Vector.replicate 32 1⟩
  keeperGeneration := 1
  quiet := .ok ()

def sampleReply : Reply where
  schemaVersion := 1
  nonce := "n"
  keeper := hex (List.replicate 32 2)
  sequence := 1
  capturedBoottimeMs := 1000000
  capturedMonotonicMs := 1000000
  context :=
    { floorMs := 999991
      policySha256 := hex (List.replicate 32 1)
      bootId := hex (List.replicate 16 1)
      processGeneration := 1
      sourceClockGeneration := 1
      keeperGeneration := 1
      runtimeSha256 := hex (List.replicate 32 1) }
  earliestMs := 999991
  latestMs := 1000005

def sampleEndpoint : EndpointIdentity := ⟨1, 2, 3, 0, 0, 1, 0, 0, 0, 0, 0⟩

def sampleClient : Client where
  endpoint := sampleEndpoint
  peer := none
  history := none
  generation := none
  lastSequence := 0
  sample := none
  process := 7
  initial := oneMs 999000
  fenced := false

def sampleBinding : HistoryBinding := ⟨"d", "e", ⟨"i", "p", 1, "l", 0⟩, "h", 999000, 1, 0, 0⟩

def sampleQuery : QueryReads where
  watch := .ok ()
  started := 0
  release := .ok ()
  endpoint := .ok sampleEndpoint
  before := .ok (oneMs 1000000)
  peer := .ok 9
  peerAlive := .ok true
  peerPidfd := .ok ()
  nonce := .ok "n"
  reply := .ok sampleReply
  now := .ok (oneMs 1000003)
  received := 1
  kernelBoot := .ok (List.replicate 16 1)
  releaseAgain := .ok ()
  endpointAgain := .ok sampleEndpoint
  peerAliveAgain := .ok true
  watchAgain := .ok ()
  finalClock := .ok (oneMs 1000004)
  finished := 2

def sampleCall : ProjectCall where
  binding := sampleBinding
  previous := ⟨{ sampleReply.context with floorMs := 999994 }, ⟨999994, 1000010⟩⟩
  reads :=
    { process := 7
      euid := 0
      now := 3
      watch := .ok ()
      peerAlive := .ok true
      first := .ok (oneMs 1000010)
      watchAgain := .ok ()
      peerAliveAgain := .ok true
      capture := ⟨.ok 1000020000000, .ok 1000020000000, 7, 0, 4, .ok 1000020000007⟩ }
  finish _ := .ok ()

/-- Twenty milliseconds and seven nanoseconds after its capture, a sample is projected. -/
theorem dispatch_sound_after_twenty_ms :
    (sampleCall.exec (.ok ⟨Vector.replicate 32 1⟩) HistoryBinding.deployment
      (sampleClient.query (.ok ⟨Vector.replicate 32 1⟩) HistoryBinding.deployment sampleBinding
        sampleQuery).2).1 =
      .ok ⟨{ sampleReply.context with floorMs := 1000010 }, ⟨1000010, 1000026⟩⟩ ∧
    Contains ⟨1000010, 1000026⟩ 1000020000007 := by
  have hresult : (sampleCall.exec (.ok ⟨Vector.replicate 32 1⟩) HistoryBinding.deployment
      (sampleClient.query (.ok ⟨Vector.replicate 32 1⟩) HistoryBinding.deployment sampleBinding
        sampleQuery).2).1 =
      .ok ⟨{ sampleReply.context with floorMs := 1000010 }, ⟨1000010, 1000026⟩⟩ := by
    decide +kernel
  refine ⟨hresult, ?_⟩
  have hshows (t : ℝ) (ns ms : Nat) (h : t = ns) (hms : ms = ns / 1000000) (v : UInt64)
      (hv : v.toNat = ms) : BootClock.exact.ShowsMs t v :=
    ⟨ns, h.ge, h ▸ lt_add_one _, hv.trans hms⟩
  have hsound := dispatch_sound (.ok ⟨Vector.replicate 32 1⟩) HistoryBinding.deployment
    BootClock.exact (hex (List.replicate 32 2)) "n" 0 sampleAnswering sampleReply
    (by decide +kernel) 1000000000000 1000000500000 1000001000000
    (fun reading h => by
      cases h
      exact hshows _ 1000000000000 1000000 (by norm_num) (by norm_num) _ rfl)
    (fun reading h => by
      cases h
      exact hshows _ 1000001000000 1000001 (by norm_num) (by norm_num) _ rfl)
    (by norm_num)
    (fun i h => by
      cases h
      norm_num [Contains])
    sampleClient sampleBinding sampleQuery rfl
    ⟨{ sampleReply.context with floorMs := 999994 }, ⟨999994, 1000010⟩⟩ (by decide +kernel)
  obtain ⟨-, -, -, coordinate, hcoordinate, hat⟩ :=
    (hsound.2.2 [] sampleCall _ rfl).1 _ hresult
  obtain rfl : ⟨1000020000007, 1000020, 7, 0, 4⟩ = coordinate := by
    have hcapture : ProjectionClock.capture sampleCall.reads.capture =
        .ok ⟨1000020000007, 1000020, 7, 0, 4⟩ := rfl
    exact Except.ok.inj (hcapture.symm.trans hcoordinate)
  have hnow : BootClock.exact.At 1000020000007 (1000020000007 : UInt64).toNat := by
    rw [show (1000020000007 : UInt64).toNat = 1000020000007 from rfl]
    norm_num [BootClock.At, BootClock.exact]
  exact (hat 1000020000007 hnow).1

end LumaOS.Utc
