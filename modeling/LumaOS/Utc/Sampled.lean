import LumaOS.Utc.Dispatch
import Mathlib

/-!
# The interval a query returns

`Client::current` projects the keeper's interval to the millisecond that its last clock reading
shows. The reading is a floor, so true UTC at that instant is up to a millisecond past the
coordinate; the capture is a floor as well. `project_after_checks` adds the missing fraction to the
upper end (`Dispatch`), the query itself does not.

* `query_lower`: the lower end is never past true UTC, as the keeper has moved it back.
* `current_contains_iff`: the upper end is safe for every clock and every position of the two
  readings exactly where the candidate reached far enough beyond true UTC.
* `current_short`: a query in the millisecond of the capture whose interval ends before true UTC.
-/

namespace LumaOS.Utc

open LumaOS.Base LumaOS.Text LumaOS.Governance
open LumaOS.Policy (Statement)

/-- What is known of the instants of a query: the keeper's two readings, the instant at which the
candidate covered UTC and its upper end lay `slack` nanoseconds beyond, and the final reading. -/
structure Timed (clock : BootClock) (r : Answering) (final : Clock) (slack first inside last t : ℝ) :
    Prop where
  firstShown : ∀ reading, r.clock = .ok reading → clock.ShowsMs first reading.boottimeMs
  lastShown : ∀ reading, r.after = .ok reading → clock.ShowsMs last reading.boottimeMs
  bracket : first ≤ inside ∧ inside ≤ last
  covered : ∀ i, r.candidate = .ok (some i) →
    Contains i inside ∧ inside + slack ≤ (i.upperMs : ℝ) * 1000000
  finalShown : clock.ShowsMs t final.boottimeMs

/-- The interval contains true UTC at the final reading, whatever the clock and the positions of the
readings in their milliseconds. -/
def AlwaysContains (r : Answering) (final : Clock) (i : Interval) (slack : ℝ) : Prop :=
  ∀ (clock : BootClock) (first inside last t : ℝ),
    Timed clock r final slack first inside last t → Contains i t

section

variable {keeper nonce : String} {sequence : UInt64} {r : Answering} {reply : Reply}
  {clock : BootClock} {final : Clock} {i : Interval} {slack first inside last t : ℝ}

/-- What the keeper's reply has of the candidate. -/
theorem serveReply_eq_ok (h : serveReply keeper nonce sequence r = .ok reply) :
    ∃ reading candidate after, r.clock = .ok reading ∧ r.candidate = .ok (some candidate) ∧
      r.after = .ok after ∧ reading.boottimeMs.toNat ≤ after.boottimeMs.toNat ∧
      reply.capturedBoottimeMs = reading.boottimeMs ∧ reply.latestMs = candidate.upperMs := by
  simp only [serveReply, bind_eq_ok, okOr_eq_ok, refuseIf_eq_ok, pure_eq_ok, i64Sub_eq_some,
    i64OfNat_eq_some, Option.filter_eq_some_iff, u64Sub_eq_some] at h
  obtain ⟨runtime, -, reading, hreading, candidate, hcandidate, utc, rfl, after, hafter, span,
    ⟨⟨hle, rfl⟩, -⟩, _, ⟨-, rfl⟩, _, ⟨-, rfl⟩, lower, ⟨-, rfl⟩, i, hnew, _, -, _, -, _, -, rfl⟩ := h
  obtain rfl := interval_new_eq_ok hnew
  exact ⟨reading, utc, after, hreading, hcandidate, hafter, UInt64.le_iff_toNat_le.mp hle, rfl, rfl⟩

theorem Timed.captured (h : Timed clock r final slack first inside last t)
    (hserve : serveReply keeper nonce sequence r = .ok reply) :
    Captured clock ⟨reply.earliestMs, reply.latestMs⟩ reply.capturedBoottimeMs first :=
  (serveReply_captured hserve h.firstShown h.lastShown h.bracket fun i hi => (h.covered i hi).1).1

/-- The ends of an interval that was projected by `age` milliseconds. -/
structure AtReading (reply : Reply) (final : Clock) (i : Interval) : Prop where
  past : reply.capturedBoottimeMs.toNat ≤ final.boottimeMs.toNat
  lower : i.lowerMs = reply.earliestMs +
    (final.boottimeMs.toNat - reply.capturedBoottimeMs.toNat : Nat) -
      driftOf (final.boottimeMs.toNat - reply.capturedBoottimeMs.toNat) 100
  upper : i.upperMs = reply.latestMs +
    (final.boottimeMs.toNat - reply.capturedBoottimeMs.toNat : Nat) +
      driftOf (final.boottimeMs.toNat - reply.capturedBoottimeMs.toNat) 100

/-- **The lower end is never past true UTC.** -/
theorem query_lower (h : Timed clock r final slack first inside last t)
    (hserve : serveReply keeper nonce sequence r = .ok reply) (hi : AtReading reply final i) :
    (i.lowerMs : ℝ) * 1000000 ≤ t := by
  have hback := (h.captured hserve).lower t final.boottimeMs.toNat hi.past h.finalShown.bounds.1
  rw [hi.lower]
  push_cast
  exact hback

/-- **The upper end is safe where the candidate reached far enough.** -/
theorem query_upper (h : Timed clock r final slack first inside last t)
    (hserve : serveReply keeper nonce sequence r = .ok reply) (hi : AtReading reply final i)
    {age : Nat} (hage : age = final.boottimeMs.toNat - reply.capturedBoottimeMs.toNat)
    (hreach : ((age : ℝ) + 1) * 10000000000 ≤ (slack + (age + driftOf age 100) * 1000000) * 9999) :
    t ≤ (i.upperMs : ℝ) * 1000000 := by
  obtain ⟨reading, candidate, after, hreading, hcandidate, -, -, hcaptured, hlatest⟩ :=
    serveReply_eq_ok hserve
  have hcovered := (h.covered candidate hcandidate).2
  have hupper : (i.upperMs : ℝ) = candidate.upperMs + age + driftOf age 100 := by
    rw [hi.upper, hlatest, ← hage]
    push_cast
    ring
  have hdrift : (0 : ℝ) ≤ driftOf age 100 := Nat.cast_nonneg _
  have hnonneg : (0 : ℝ) ≤ age := Nat.cast_nonneg _
  rw [hupper]
  obtain hlate | hearly := le_total inside t
  · -- true time ran ahead of the clock by at most 100 ppm, from a reading on that is a floor
    have helapsed := clock.elapsed_le hlate
    have hfirst := (h.firstShown reading hreading).bounds.1
    have hinside := clock.mono h.bracket.1
    have hfinal := h.finalShown.bounds.2
    have hcast : (final.boottimeMs.toNat : ℝ) = reading.boottimeMs.toNat + age := by
      rw [hage, hcaptured]
      have hpast := hi.past
      rw [hcaptured] at hpast
      push_cast [Nat.cast_sub hpast]
      ring
    rw [hcast] at hfinal
    linarith
  · linarith

/-- **Where it did not, some clock runs past it.** -/
theorem query_short (hserve : serveReply keeper nonce sequence r = .ok reply)
    (hi : AtReading reply final i) {candidate : Interval}
    (hcandidate : r.candidate = .ok (some candidate)) (hslack : 0 ≤ slack)
    (hwidth : slack ≤ ((candidate.upperMs : ℝ) - candidate.lowerMs) * 1000000) {age : Nat}
    (hage : age = final.boottimeMs.toNat - reply.capturedBoottimeMs.toNat)
    (hshort : (slack + (age + driftOf age 100) * 1000000) * 9999 < ((age : ℝ) + 1) * 10000000000) :
    ∃ (clock : BootClock) (first last t : ℝ), Timed clock r final slack first first last t ∧
      (i.upperMs : ℝ) * 1000000 < t := by
  obtain ⟨reading, candidate', after, hreading, hcandidate', hafter, hle, hcaptured, hlatest⟩ :=
    serveReply_eq_ok hserve
  obtain rfl : candidate = candidate' := by
    have hsame := hcandidate.symm.trans hcandidate'
    cases hsame
    rfl
  have hupper : (i.upperMs : ℝ) = candidate.upperMs + age + driftOf age 100 := by
    rw [hi.upper, hlatest, ← hage]
    push_cast
    ring
  have hcast : final.boottimeMs.toNat = reading.boottimeMs.toNat + age := by
    have hpast := hi.past
    rw [hcaptured] at hpast hage
    omega
  -- the capture stands at the beginning of its millisecond, the final reading towards the end of its
  let origin : ℝ := candidate.upperMs * 1000000 - slack
  let reach : ℝ := slack + (age + driftOf age 100) * 1000000
  let latest : ℝ := ((age : ℝ) + 1) * 1000000 * (10000 / 9999)
  let early : ℝ := (((age : ℝ) + 1) * 1000000 - 1) * (10000 / 9999)
  let elapsed : ℝ := (max reach early + latest) / 2
  have hreach : reach < latest := by
    show slack + (age + driftOf age 100) * 1000000 < ((age : ℝ) + 1) * 1000000 * (10000 / 9999)
    linarith
  have hearly : early < latest := by
    show (((age : ℝ) + 1) * 1000000 - 1) * (10000 / 9999) < ((age : ℝ) + 1) * 1000000 * (10000 / 9999)
    linarith
  have hmax : max reach early < latest := max_lt hreach hearly
  have hlow : reach < elapsed := by
    have := le_max_left reach early
    show reach < (max reach early + latest) / 2
    linarith
  have hlow' : early < elapsed := by
    have := le_max_right reach early
    show early < (max reach early + latest) / 2
    linarith
  have hhigh : elapsed < latest := by
    show (max reach early + latest) / 2 < latest
    linarith
  have hspan : (reading.boottimeMs.toNat : ℝ) ≤ after.boottimeMs.toNat := by exact_mod_cast hle
  have hlast : origin ≤ origin +
      ((after.boottimeMs.toNat : ℝ) - reading.boottimeMs.toNat) * 1000000 * (10000 / 9999) := by
    linarith
  refine ⟨BootClock.slow (reading.boottimeMs.toNat * 1000000) origin, origin,
    origin + ((after.boottimeMs.toNat : ℝ) - reading.boottimeMs.toNat) * 1000000 * (10000 / 9999),
    origin + elapsed, ⟨?_, ?_, ⟨le_rfl, hlast⟩, ?_, ?_⟩, ?_⟩
  · intro reading' h
    cases hreading.symm.trans h
    refine ⟨reading.boottimeMs.toNat * 1000000, ?_, ?_, ?_⟩
    · push_cast
      show _ ≤ (reading.boottimeMs.toNat : ℝ) * 1000000 + (origin - origin) * (9999 / 10000)
      linarith
    · push_cast
      show (reading.boottimeMs.toNat : ℝ) * 1000000 + (origin - origin) * (9999 / 10000) < _
      linarith
    · omega
  · intro after' h
    cases hafter.symm.trans h
    refine ⟨after.boottimeMs.toNat * 1000000, ?_, ?_, ?_⟩
    · push_cast
      show _ ≤ (reading.boottimeMs.toNat : ℝ) * 1000000 + (origin +
        ((after.boottimeMs.toNat : ℝ) - reading.boottimeMs.toNat) * 1000000 * (10000 / 9999) -
          origin) * (9999 / 10000)
      linarith
    · push_cast
      show (reading.boottimeMs.toNat : ℝ) * 1000000 + (origin +
        ((after.boottimeMs.toNat : ℝ) - reading.boottimeMs.toNat) * 1000000 * (10000 / 9999) -
          origin) * (9999 / 10000) < _
      linarith
    · omega
  · intro candidate' h
    cases hcandidate.symm.trans h
    refine ⟨⟨?_, ?_⟩, ?_⟩
    · show _ ≤ (candidate.upperMs : ℝ) * 1000000 - slack
      linarith
    · show (candidate.upperMs : ℝ) * 1000000 - slack ≤ _
      linarith
    · show (candidate.upperMs : ℝ) * 1000000 - slack + slack ≤ _
      linarith
  · have hboot : (BootClock.slow (reading.boottimeMs.toNat * 1000000) origin).boot
        (origin + elapsed) = reading.boottimeMs.toNat * 1000000 + elapsed * (9999 / 10000) := by
      show (reading.boottimeMs.toNat : ℝ) * 1000000 + (origin + elapsed - origin) * (9999 / 10000) = _
      ring
    refine ⟨final.boottimeMs.toNat * 1000000 + 999999, ?_, ?_, by omega⟩
    · rw [hboot, hcast]
      have hlow' : (((age : ℝ) + 1) * 1000000 - 1) * (10000 / 9999) < elapsed := hlow'
      push_cast
      linarith
    · rw [hboot, hcast]
      have hhigh : elapsed < ((age : ℝ) + 1) * 1000000 * (10000 / 9999) := hhigh
      push_cast
      linarith
  · rw [hupper]
    have hlow : slack + (age + driftOf age 100) * 1000000 < elapsed := hlow
    show _ < (candidate.upperMs : ℝ) * 1000000 - slack + elapsed
    linarith

/-- What a query returns is the reply's interval, moved to the final reading. -/
theorem query_atReading {fixed : Result ApprovedPolicy} {digest : HistoryBinding → String}
    {c : Client} {binding : HistoryBinding} {q : QueryReads} {observation : Observation}
    (hreply : q.reply = .ok reply)
    (hquery : (c.query fixed digest binding q).1 = .ok observation) :
    ∃ final, q.finalClock = .ok final ∧ AtReading reply final observation.utc := by
  obtain ⟨-, reply', final, s, hreply', hfinal, -, hadmitted⟩ :=
    current_eq_ok (Prod.ext hquery rfl : c.query fixed digest binding q = (.ok observation, _))
  obtain rfl : reply' = reply := Except.ok.inj (hreply'.symm.trans hreply)
  have hproject := hadmitted.projected
  rw [hadmitted.raw] at hproject
  obtain ⟨hpast, -, hlower, hupper⟩ := projectDelivered_eq_ok hproject
  exact ⟨final, hfinal, hpast, hlower, hupper⟩

/-- **When a query's interval contains true UTC at its final reading.** Its lower end never passes
it. Its upper end is safe, for every clock and every position of the readings in their milliseconds,
exactly where the candidate's upper end lay beyond true UTC by what the measured age and its rounded
drift are short of the greatest real age. -/
theorem current_contains_iff (fixed : Result ApprovedPolicy) (digest : HistoryBinding → String)
    (keeper nonce : String) (sequence : UInt64) (r : Answering) (reply : Reply)
    (hserve : serveReply keeper nonce sequence r = .ok reply)
    (c : Client) (binding : HistoryBinding) (q : QueryReads) (hreply : q.reply = .ok reply)
    (observation : Observation) (hquery : (c.query fixed digest binding q).1 = .ok observation) :
    ∃ (final : Clock) (candidate : Interval) (age : Nat), q.finalClock = .ok final ∧
      r.candidate = .ok (some candidate) ∧
      age = final.boottimeMs.toNat - reply.capturedBoottimeMs.toNat ∧
      (∀ clock slack first inside last t, Timed clock r final slack first inside last t →
        (observation.utc.lowerMs : ℝ) * 1000000 ≤ t) ∧
      ∀ slack : ℝ, 0 ≤ slack →
        slack ≤ ((candidate.upperMs : ℝ) - candidate.lowerMs) * 1000000 →
        (AlwaysContains r final observation.utc slack ↔
          ((age : ℝ) + 1) * 10000000000 ≤ (slack + (age + driftOf age 100) * 1000000) * 9999) := by
  obtain ⟨final, hfinal, hi⟩ := query_atReading hreply hquery
  obtain ⟨reading, candidate, after, -, hcandidate, -, -, -, -⟩ := serveReply_eq_ok hserve
  refine ⟨final, candidate, _, hfinal, hcandidate, rfl, fun clock slack first inside last t h =>
    query_lower h hserve hi, fun slack hslack hwidth => ⟨fun halways => ?_, fun hreach => ?_⟩⟩
  · by_contra hshort
    obtain ⟨clock, first, last, t, htimed, hpast⟩ :=
      query_short hserve hi hcandidate hslack hwidth rfl (not_le.mp hshort)
    have hcontains := (halways clock first first last t htimed).2
    linarith
  · intro clock first inside last t h
    exact ⟨query_lower h hserve hi, query_upper h hserve hi rfl hreach⟩

end

/-! ### A query in the millisecond of the capture -/

/-- The candidate ends at true UTC. -/
def tightAnswering : Answering :=
  { sampleAnswering with candidate := .ok (some ⟨999995, 1000000⟩), after := .ok (oneMs 1000000) }

def tightReply : Reply :=
  { sampleReply with
    context := { sampleReply.context with floorMs := 999993 }
    earliestMs := 999993
    latestMs := 1000000 }

def tightQuery : QueryReads :=
  { sampleQuery with
    reply := .ok tightReply
    now := .ok (oneMs 1000000)
    finalClock := .ok (oneMs 1000000) }

/-- The client's query of it. -/
def tightResult : Result Observation :=
  (sampleClient.query (.ok ⟨Vector.replicate 32 1⟩) HistoryBinding.deployment sampleBinding
    tightQuery).1

theorem tight_served :
    serveReply (hex (List.replicate 32 2)) "n" 0 tightAnswering = .ok tightReply ∧
    tightResult = .ok ⟨{ tightReply.context with floorMs := 999993 }, ⟨999993, 1000000⟩⟩ := by
  decide +kernel

/-- **True UTC has passed the upper end**: nine tenths of a millisecond after the capture, in the
same millisecond. -/
theorem current_short : serveReply (hex (List.replicate 32 2)) "n" 0 tightAnswering = .ok tightReply ∧
    tightResult = .ok ⟨{ tightReply.context with floorMs := 999993 }, ⟨999993, 1000000⟩⟩ ∧
    Timed BootClock.exact tightAnswering (oneMs 1000000) 0 1000000000000 1000000000000 1000000000000
      1000000900000 ∧ ¬ Contains ⟨999993, 1000000⟩ 1000000900000 := by
  have hshows (t : ℝ) (ns : Nat) (h : t = ns) (hms : 1000000 = ns / 1000000) :
      BootClock.exact.ShowsMs t 1000000 :=
    ⟨ns, h.ge, h ▸ lt_add_one _, hms⟩
  refine ⟨tight_served.1, tight_served.2, ⟨?_, ?_, ⟨le_rfl, le_rfl⟩, ?_, ?_⟩, ?_⟩
  · intro reading h
    cases h
    exact hshows _ 1000000000000 (by norm_num) (by norm_num)
  · intro reading h
    cases h
    exact hshows _ 1000000000000 (by norm_num) (by norm_num)
  · intro i h
    cases h
    norm_num [Contains]
  · exact hshows _ 1000000900000 (by norm_num) (by norm_num)
  · norm_num [Contains]

/-- A slack of a millisecond and 101 nanoseconds is enough for a query in the millisecond of the
capture. -/
theorem current_contains_iff_tight : ∃ final, tightQuery.finalClock = .ok final ∧
    AlwaysContains tightAnswering final ⟨999993, 1000000⟩ 1000101 := by
  obtain ⟨final, candidate, age, hfinal, hcandidate, hage, -, hiff⟩ :=
    current_contains_iff (.ok ⟨Vector.replicate 32 1⟩) HistoryBinding.deployment
      (hex (List.replicate 32 2)) "n" 0 tightAnswering tightReply tight_served.1 sampleClient
      sampleBinding tightQuery rfl _ tight_served.2
  cases hcandidate
  cases hfinal
  refine ⟨_, rfl, (hiff 1000101 (by norm_num) (by norm_num)).mpr ?_⟩
  rw [show age = 0 from hage]
  norm_num [driftOf, divCeil]

end LumaOS.Utc
