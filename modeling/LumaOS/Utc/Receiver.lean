import LumaOS.Utc.Keeper

/-!
# The receiver's cursor over the UTC stream

Model of `Cursor` and `validate_capture` (`utc_receiver.rs:209-313`, `625-649`): what the receiver
remembers of the rounds it accepted, and the checks of the next one. Millisecond readings are
`UInt64`; the differences of `i64` host readings, in `i128` in the source, are taken in `Int`.

The memory per source is the last measured sample and a flag that the source was unavailable since.
`Tracks` says what that memory means against the accepted rounds: every earlier sample of the source
is either the remembered one, reported without a gap as long as the flag is down, or strictly older
than it. `Tracks.accept` keeps it over one round, and **`accepted_fresh`** reads the history of a
whole stream off it.
-/

namespace LumaOS.Utc.Receiver

open LumaOS.Base LumaOS.Governance

/-! ## Rounds -/

/-- `utc_protocol::ProducerEpoch`. -/
structure ProducerEpoch where
  bootId : Vector UInt8 16
  processGeneration : UInt64
  sourceClockGeneration : UInt64
  policyDigest : Vector UInt8 32
deriving DecidableEq

/-- `utc_protocol::SourceData`. -/
inductive SourceData where
  | unavailable (operator : UInt8)
  | measured (operator : UInt8) (sequence observedBoottimeMs : UInt64) (utc : Interval)
deriving DecidableEq

/-- `utc_protocol::ProducerRound`. -/
structure ProducerRound where
  epoch : ProducerEpoch
  sequence : UInt64
  capturedBoottimeMs : UInt64
  capturedMonotonicMs : UInt64
  capturedRealtimeMs : Int
  sources : Vector SourceData 3

/-- `utc_receiver::Capture`. -/
structure Capture where
  bootMs : UInt64
  monoMs : UInt64
  realMs : Int

/-- The tolerance for a realtime difference over `elapsed` milliseconds of boot time. -/
def allowance (elapsed : UInt64) : Nat := divCeil (elapsed.toNat * 100) 999900 + 4

/-- `a.abs_diff(b) > 4`, or the realtime difference is off by more than the allowance. -/
def discontinuous (boot mono : UInt64) (real : Int) : Bool :=
  ((boot.toNat : Int) - mono.toNat).natAbs > 4 || (real - boot.toNat).natAbs > allowance boot

/-- `validate_capture`. -/
def validateCapture (round : ProducerRound) (now : Capture) : Result Unit := do
  refuseIf (now.bootMs < now.monoMs || now.realMs < 0) "invalid UTC receiver capture"
  let age ← okOr ((u64Sub now.bootMs round.capturedBoottimeMs).filter fun age => age ≤ 999)
    "UTC stream capture is future-dated or stale"
  let monoAge ← okOr (u64Sub now.monoMs round.capturedMonotonicMs)
    "UTC stream monotonic capture is future-dated"
  refuseIf (discontinuous age monoAge (now.realMs - round.capturedRealtimeMs))
    "UTC producer and receiver clocks disagree"

/-! ## The cursor -/

structure Cursor where
  epoch : ProducerEpoch
  barrierMs : UInt64
  sequence : UInt64
  previous : Option Capture
  samples : Vector (Option SourceData) 3
  lost : Vector Bool 3

namespace Cursor

/-- `Cursor::new`; `fixed` is what `ApprovedPolicy::fixed()` returned. -/
def new (fixed : Result ApprovedPolicy) (epoch : ProducerEpoch) (barrierMs : UInt64) :
    Result Cursor := do
  refuseIf (epoch.bootId == Vector.replicate 16 0 || epoch.processGeneration == 0 ||
      epoch.sourceClockGeneration == 0)
    "uninitialized UTC receiver epoch"
  let policy ← fixed
  refuseIf (epoch.policyDigest != policy.digest) "uninitialized UTC receiver epoch"
  pure
    { epoch
      barrierMs
      sequence := 0
      previous := none
      samples := Vector.replicate 3 none
      lost := Vector.replicate 3 false }

/-- The comparison with the previous accepted capture. -/
def checkElapsed (round : ProducerRound) : Option Capture → Result Unit
  | none => .ok ()
  | some old => do
    let bootDelta ← okOr (u64Sub round.capturedBoottimeMs old.bootMs) "UTC stream boot regression"
    let monoDelta ← okOr (u64Sub round.capturedMonotonicMs old.monoMs)
      "UTC stream monotonic regression"
    refuseIf (discontinuous bootDelta monoDelta (round.capturedRealtimeMs - old.realMs))
      "UTC stream suspend or realtime discontinuity"

/-- The comparison of a measured sample with the one remembered. -/
def checkRenewal (sample : SourceData) (sequence observedMs : UInt64) (held : Option SourceData)
    (lost : Bool) : Result Unit :=
  match held with
  | some (.measured _ oldSequence oldMs _) =>
    refuseIf (sequence < oldSequence ||
        (sequence == oldSequence && (some sample != held || lost)) ||
        (sequence > oldSequence && observedMs ≤ oldMs))
      "UTC source replay, re-aging or restoration of lost sample"
  | _ => .ok ()

/-- One turn of the loop over the sources; `held` and `lost` are `samples[index]` and
`lost[index]`, which no other turn reads or writes. -/
def sourceStep (barrierMs capturedMs : UInt64) (index : Fin 3) (sample : SourceData)
    (held : Option SourceData) (lost : Bool) : Result (Option SourceData × Bool) :=
  match sample with
  | .unavailable operator => do
    refuseIf (operator.toNat != index + 1) "UTC stream source inventory mismatch"
    pure (held, true)
  | .measured operator sequence observedMs _ => do
    refuseIf (operator.toNat != index + 1) "UTC stream source inventory mismatch"
    refuseIf (sequence == 0 || observedMs < barrierMs || observedMs > capturedMs)
      "UTC sample sequence or acquisition timing mismatch"
    checkRenewal sample sequence observedMs held lost
    pure (some sample, false)

/-- The turn `index` on the local copies of `samples` and `lost`. -/
def memoryStep (barrierMs : UInt64) (round : ProducerRound)
    (memory : Vector (Option SourceData) 3 × Vector Bool 3) (index : Fin 3) :
    Result (Vector (Option SourceData) 3 × Vector Bool 3) := do
  let (held, lost) ← sourceStep barrierMs round.capturedBoottimeMs index round.sources[index]
    memory.1[index] memory.2[index]
  pure (memory.1.set index held, memory.2.set index lost)

/-- The loop over the sources. -/
def checkSources (barrierMs : UInt64) (round : ProducerRound)
    (memory : Vector (Option SourceData) 3 × Vector Bool 3) :
    Result (Vector (Option SourceData) 3 × Vector Bool 3) :=
  (List.finRange 3).foldlM (memoryStep barrierMs round) memory

/-- `Cursor::accept`. -/
def accept (round : ProducerRound) (now : Capture) : Mut Cursor Unit := do
  let self ← get
  refuseIf (round.epoch != self.epoch || round.sequence ≤ self.sequence ||
      round.capturedBoottimeMs < self.barrierMs)
    "UTC stream epoch, replay or acquisition barrier mismatch"
  validateCapture round now
  checkElapsed round self.previous
  let (samples, lost) ← checkSources self.barrierMs round (self.samples, self.lost)
  set { self with
    samples
    lost
    sequence := round.sequence
    previous := some
      { bootMs := round.capturedBoottimeMs
        monoMs := round.capturedMonotonicMs
        realMs := round.capturedRealtimeMs } }

/-- The rounds a stream of calls got accepted, in order. -/
def accepted : Cursor → List (ProducerRound × Capture) → List ProducerRound
  | _, [] => []
  | c, (round, now) :: calls =>
    match (accept round now).exec c with
    | (.ok _, c') => round :: accepted c' calls
    | (.error _, c') => accepted c' calls

/-! ## One round -/

end Cursor

/-- The sequence number and the observation time of a measured sample. -/
def SourceData.reading : SourceData → Option (UInt64 × UInt64)
  | .unavailable _ => none
  | .measured _ sequence observedMs _ => some (sequence, observedMs)

/-- A sample read `later` is newer than one read `earlier`. -/
def Newer (earlier later : UInt64 × UInt64) : Prop := earlier.1 < later.1 ∧ earlier.2 < later.2

theorem Newer.trans {a b c : UInt64 × UInt64} (hab : Newer a b) (hbc : Newer b c) : Newer a c :=
  ⟨UInt64.lt_trans hab.1 hbc.1, UInt64.lt_trans hab.2 hbc.2⟩

namespace Cursor

variable {c c' : Cursor} {round : ProducerRound} {now : Capture}

/-- What one turn does to the memory of its source. -/
inductive Remembers (barrierMs capturedMs : UInt64) (sample : SourceData)
    (held : Option SourceData) (lost : Bool) : Option SourceData × Bool → Prop
  | unavailable : sample.reading = none →
      Remembers barrierMs capturedMs sample held lost (held, true)
  | measured {reading} : sample.reading = some reading →
      barrierMs ≤ reading.2 → reading.2 ≤ capturedMs →
      (∀ old oldReading, held = some old → old.reading = some oldReading →
        (sample = old ∧ lost = false) ∨ Newer oldReading reading) →
      Remembers barrierMs capturedMs sample held lost (some sample, false)

theorem sourceStep_remembers {barrierMs capturedMs : UInt64} {index : Fin 3} {sample : SourceData}
    {held : Option SourceData} {lost : Bool} {memory : Option SourceData × Bool}
    (h : sourceStep barrierMs capturedMs index sample held lost = .ok memory) :
    Remembers barrierMs capturedMs sample held lost memory := by
  unfold sourceStep at h
  split at h
  · simp only [bind_eq_ok, pure_eq_ok] at h
    obtain ⟨-, -, rfl⟩ := h
    exact .unavailable rfl
  · rename_i operator sequence observedMs utc
    simp only [bind_eq_ok, pure_eq_ok, refuseIf_eq_ok, Bool.or_eq_false_iff,
      decide_eq_false_iff_not, UInt64.not_lt] at h
    obtain ⟨-, -, -, ⟨⟨-, hbarrier⟩, hcaptured⟩, _, hrenewal, rfl⟩ := h
    refine .measured rfl hbarrier hcaptured fun old oldReading hheld hold => ?_
    subst hheld
    cases old with
    | unavailable => cases hold
    | measured oldOperator oldSequence oldMs oldUtc =>
      cases hold
      simp only [checkRenewal, refuseIf_eq_ok, Bool.or_eq_false_iff, Bool.and_eq_false_iff,
        decide_eq_false_iff_not, UInt64.not_lt, UInt64.not_le, beq_eq_false_iff_ne,
        bne_eq_false_iff_eq, Option.some.injEq, ne_eq] at hrenewal
      obtain ⟨⟨hle, hsame⟩, hlater⟩ := hrenewal
      by_cases heq : sequence = oldSequence
      · exact Or.inl (hsame.resolve_left fun hne => hne heq)
      · have hlt : oldSequence < sequence := UInt64.lt_of_le_of_ne hle fun he => heq he.symm
        exact Or.inr ⟨hlt, hlater.resolve_left fun hno => UInt64.not_le.mpr hlt hno⟩

/-- Every turn of the loop is a turn on the memory before the loop. -/
theorem memory_eq_ok {barrierMs : UInt64}
    {memory memory' : Vector (Option SourceData) 3 × Vector Bool 3}
    (h : checkSources barrierMs round memory = .ok memory') (i : Fin 3) :
    sourceStep barrierMs round.capturedBoottimeMs i round.sources[i] memory.1[i] memory.2[i] =
      .ok (memory'.1[i], memory'.2[i]) := by
  unfold checkSources at h
  rw [show List.finRange 3 = [0, 1, 2] from rfl] at h
  simp only [List.foldlM_cons, List.foldlM_nil, memoryStep, bind_eq_ok, pure_eq_ok] at h
  obtain ⟨_, ⟨⟨h₀, l₀⟩, e₀, rfl⟩, _, ⟨⟨h₁, l₁⟩, e₁, rfl⟩, _, ⟨⟨h₂, l₂⟩, e₂, rfl⟩, rfl⟩ := h
  match i with
  | 0 => simpa using e₀
  | 1 => simpa using e₁
  | 2 => simpa using e₂

/-- **One accepted round**: its number is new, its capture is not behind the previous one, and each
source's memory took a turn. -/
structure Accepts (c : Cursor) (round : ProducerRound) (c' : Cursor) : Prop where
  barrier : c'.barrierMs = c.barrierMs
  sequence : c.sequence < round.sequence ∧ c'.sequence = round.sequence
  capture : (∀ old, c.previous = some old →
      old.bootMs ≤ round.capturedBoottimeMs ∧ old.monoMs ≤ round.capturedMonotonicMs) ∧
    ∃ new, c'.previous = some new ∧ new.bootMs = round.capturedBoottimeMs ∧
      new.monoMs = round.capturedMonotonicMs
  sources : ∀ i : Fin 3, Remembers c.barrierMs round.capturedBoottimeMs round.sources[i]
    c.samples[i] c.lost[i] (c'.samples[i], c'.lost[i])

theorem spec_accept (c : Cursor) (round : ProducerRound) (now : Capture) :
    Mut.Spec (accept round now) c fun _ c' => Accepts c round c' := by
  unfold accept
  refine Mut.spec_bind_get (Mut.spec_bind_lift fun _ hguard => Mut.spec_bind_lift fun _ _ =>
    Mut.spec_bind_lift fun _ helapsed => Mut.spec_bind_lift fun memory hmemory => Mut.spec_set ?_)
  simp only [refuseIf_eq_ok, Bool.or_eq_false_iff, decide_eq_false_iff_not,
    UInt64.not_le] at hguard
  refine ⟨rfl, ⟨hguard.1.2, rfl⟩, ⟨fun old hold => ?_, _, rfl, rfl, rfl⟩, fun i =>
    sourceStep_remembers (memory_eq_ok hmemory i)⟩
  rw [hold] at helapsed
  simp only [checkElapsed, bind_eq_ok, okOr_eq_ok, u64Sub_eq_some] at helapsed
  obtain ⟨_, ⟨hboot, -⟩, _, ⟨hmono, -⟩, -⟩ := helapsed
  exact ⟨hboot, hmono⟩

/-! ## The rounds accepted so far -/

/-- `r'` was accepted after `r`, with the rounds `between` in between: if both report source `i`,
they report one sample and so does every round between them, or the later sample is newer. -/
def Renewed (i : Fin 3) (r : ProducerRound) (between : List ProducerRound) (r' : ProducerRound) :
    Prop :=
  ∀ reading reading', r.sources[i].reading = some reading →
    r'.sources[i].reading = some reading' →
    (r'.sources[i] = r.sources[i] ∧ ∀ m ∈ between, m.sources[i].reading.isSome = true) ∨
      Newer reading reading'

/-- **The invariant**: what the cursor remembers of the accepted rounds `past`. -/
structure Tracks (barrierMs : UInt64) (past : List ProducerRound) (c : Cursor) : Prop where
  barrier : c.barrierMs = barrierMs
  sequences : (past.map (·.sequence)).Pairwise (· < ·) ∧ ∀ r ∈ past, r.sequence ≤ c.sequence
  captures : past.Pairwise (fun r r' => r.capturedBoottimeMs ≤ r'.capturedBoottimeMs ∧
      r.capturedMonotonicMs ≤ r'.capturedMonotonicMs) ∧
    ∀ r ∈ past, ∃ old, c.previous = some old ∧ r.capturedBoottimeMs ≤ old.bootMs ∧
      r.capturedMonotonicMs ≤ old.monoMs
  timely : ∀ r ∈ past, ∀ (i : Fin 3) reading, r.sources[i].reading = some reading →
    barrierMs ≤ reading.2 ∧ reading.2 ≤ r.capturedBoottimeMs
  renewed : ∀ before r between r' rest, past = before ++ r :: (between ++ r' :: rest) →
    ∀ i, Renewed i r between r'
  /-- Every sample of the past is the one remembered, reported ever since unless the source was
  lost, or older than it. -/
  memory : ∀ before r between, past = before ++ r :: between → ∀ (i : Fin 3) reading,
    r.sources[i].reading = some reading → ∃ held heldReading, c.samples[i] = some held ∧
      held.reading = some heldReading ∧
      ((held = r.sources[i] ∧
          (c.lost[i] = false → ∀ m ∈ between, m.sources[i].reading.isSome = true)) ∨
        Newer reading heldReading)

theorem tracks_new {fixed : Result ApprovedPolicy} {epoch : ProducerEpoch} {barrierMs : UInt64}
    (h : new fixed epoch barrierMs = .ok c) : Tracks barrierMs [] c := by
  unfold new at h
  simp only [bind_eq_ok, pure_eq_ok] at h
  obtain ⟨-, -, -, -, -, -, rfl⟩ := h
  exact
    { barrier := rfl
      sequences := ⟨List.Pairwise.nil, fun r hr => absurd hr List.not_mem_nil⟩
      captures := ⟨List.Pairwise.nil, fun r hr => absurd hr List.not_mem_nil⟩
      timely := fun r hr => absurd hr List.not_mem_nil
      renewed := fun before r between r' rest he => by simp at he
      memory := fun before r between he => by simp at he }

/-- A sample remembered before the round: what the round's own sample of the source is to it, and
what is remembered afterwards. -/
theorem Remembers.after {barrierMs capturedMs : UInt64} {sample held : SourceData} {lost : Bool}
    {memory : Option SourceData × Bool} {heldReading : UInt64 × UInt64}
    (h : Remembers barrierMs capturedMs sample (some held) lost memory)
    (hheld : held.reading = some heldReading) :
    (sample.reading = none ∧ memory = (some held, true)) ∨
      ∃ reading, sample.reading = some reading ∧ memory = (some sample, false) ∧
        ((sample = held ∧ lost = false) ∨ Newer heldReading reading) := by
  cases h with
  | unavailable hnone => exact Or.inl ⟨hnone, rfl⟩
  | measured hreading _ _ hold => exact Or.inr ⟨_, hreading, rfl, hold held _ rfl hheld⟩

/-- The round's sample of a source against an earlier one of the past. -/
theorem Tracks.renews {barrierMs : UInt64} {past : List ProducerRound}
    (ht : Tracks barrierMs past c) (ha : Accepts c round c') {before between : List ProducerRound}
    {r : ProducerRound} (hpast : past = before ++ r :: between) (i : Fin 3) :
    Renewed i r between round := by
  intro reading reading' hr hr'
  obtain ⟨held, heldReading, hsample, hheld, hcase⟩ := ht.memory before r between hpast i reading hr
  have hrem := ha.sources i
  rw [hsample] at hrem
  obtain ⟨hnone, -⟩ | ⟨new, hnew, -, hnewer⟩ := hrem.after hheld
  · rw [hnone] at hr'
    cases hr'
  · rw [hr'] at hnew
    cases hnew
    rcases hcase with ⟨rfl, hsince⟩ | holder <;> rcases hnewer with ⟨heq, hkept⟩ | hnewer
    · exact Or.inl ⟨heq, hsince hkept⟩
    · rw [hr] at hheld
      cases hheld
      exact Or.inr hnewer
    · rw [heq, hheld] at hr'
      cases hr'
      exact Or.inr holder
    · exact Or.inr (holder.trans hnewer)

/-- What is remembered after the round of a sample of the past. -/
theorem Tracks.remembers {barrierMs : UInt64} {past : List ProducerRound}
    (ht : Tracks barrierMs past c) (ha : Accepts c round c') {before between : List ProducerRound}
    {r : ProducerRound} (hpast : past = before ++ r :: between) (i : Fin 3)
    {reading : UInt64 × UInt64} (hr : r.sources[i].reading = some reading) :
    ∃ held heldReading, c'.samples[i] = some held ∧ held.reading = some heldReading ∧
      ((held = r.sources[i] ∧ (c'.lost[i] = false →
          ∀ m ∈ between ++ [round], m.sources[i].reading.isSome = true)) ∨
        Newer reading heldReading) := by
  have hrenewed := ht.renews ha hpast i
  obtain ⟨held, heldReading, hsample, hheld, hcase⟩ := ht.memory before r between hpast i reading hr
  have hrem := ha.sources i
  rw [hsample] at hrem
  obtain ⟨-, hmemory⟩ | ⟨new, hnew, hmemory, -⟩ := hrem.after hheld
  · -- unavailable: the sample stays, the flag goes up
    obtain ⟨hkept, hlost⟩ := Prod.mk.inj hmemory
    refine ⟨held, heldReading, hkept, hheld, hcase.imp (fun h => ⟨h.1, fun hno => ?_⟩) id⟩
    rw [hlost] at hno
    cases hno
  · obtain ⟨hkept, hlost⟩ := Prod.mk.inj hmemory
    refine ⟨_, new, hkept, hnew, ?_⟩
    refine (hrenewed reading new hr hnew).imp (fun h => ⟨h.1, fun _ m hm => ?_⟩) id
    rcases List.mem_append.mp hm with hm | hm
    · exact h.2 m hm
    · rw [List.mem_singleton.mp hm, hnew]
      rfl

/-- **The step lemma.** -/
theorem Tracks.accept {barrierMs : UInt64} {past : List ProducerRound}
    (ht : Tracks barrierMs past c) (ha : Accepts c round c') :
    Tracks barrierMs (past ++ [round]) c' where
  barrier := ha.barrier.trans ht.barrier
  sequences := by
    have hlt : ∀ r ∈ past, r.sequence < round.sequence := fun r hr =>
      UInt64.lt_of_le_of_lt (ht.sequences.2 r hr) ha.sequence.1
    constructor
    · rw [List.map_append, List.pairwise_append]
      refine ⟨ht.sequences.1, List.pairwise_singleton _ _, ?_⟩
      simpa using hlt
    · rw [ha.sequence.2]
      intro r hr
      rcases List.mem_append.mp hr with hr | hr
      · exact UInt64.le_of_lt (hlt r hr)
      · rw [List.mem_singleton.mp hr]
        exact UInt64.le_refl _
  captures := by
    have hle : ∀ r ∈ past, r.capturedBoottimeMs ≤ round.capturedBoottimeMs ∧
        r.capturedMonotonicMs ≤ round.capturedMonotonicMs := by
      intro r hr
      obtain ⟨old, hold, hboot, hmono⟩ := ht.captures.2 r hr
      obtain ⟨hboot', hmono'⟩ := ha.capture.1 old hold
      exact ⟨UInt64.le_trans hboot hboot', UInt64.le_trans hmono hmono'⟩
    obtain ⟨new, hnew, hboot, hmono⟩ := ha.capture.2
    constructor
    · rw [List.pairwise_append]
      exact ⟨ht.captures.1, List.pairwise_singleton _ _, by simpa using hle⟩
    · intro r hr
      refine ⟨new, hnew, ?_⟩
      rw [hboot, hmono]
      rcases List.mem_append.mp hr with hr | hr
      · exact hle r hr
      · rw [List.mem_singleton.mp hr]
        exact ⟨UInt64.le_refl _, UInt64.le_refl _⟩
  timely := by
    intro r hr i reading hreading
    rcases List.mem_append.mp hr with hr | hr
    · exact ht.timely r hr i reading hreading
    · obtain rfl := List.mem_singleton.mp hr
      have hrem := ha.sources i
      generalize (c'.samples[i], c'.lost[i]) = memory at hrem
      cases hrem with
      | unavailable hnone =>
        rw [hnone] at hreading
        cases hreading
      | measured hsome hbarrier hcaptured =>
        rw [hsome] at hreading
        cases hreading
        exact ⟨ht.barrier ▸ hbarrier, hcaptured⟩
  renewed := by
    intro before r between r' rest he i
    rcases List.eq_nil_or_concat rest with rfl | ⟨rest, last, rfl⟩
    · -- the later round is the one just accepted
      have he' : past ++ [round] = (before ++ r :: between) ++ [r'] := by simpa using he
      obtain ⟨hpast, hlast⟩ := List.append_inj' he' rfl
      obtain rfl : round = r' := by simpa using hlast
      exact ht.renews ha hpast i
    · have he' : past ++ [round] = (before ++ r :: (between ++ r' :: rest)) ++ [last] := by
        simpa using he
      exact ht.renewed before r between r' rest (List.append_inj' he' rfl).1 i
  memory := by
    intro before r between he i reading hr
    rcases List.eq_nil_or_concat between with rfl | ⟨between, last, rfl⟩
    · obtain ⟨-, hlast⟩ := List.append_inj' he rfl
      obtain rfl : round = r := by simpa using hlast
      have hrem := ha.sources i
      generalize hmem : (c'.samples[i], c'.lost[i]) = memory at hrem
      cases hrem with
      | unavailable hnone =>
        rw [hnone] at hr
        cases hr
      | measured =>
        obtain ⟨hsample, -⟩ := Prod.mk.inj hmem
        exact ⟨_, reading, hsample, hr, Or.inl ⟨rfl, fun _ m hm => absurd hm List.not_mem_nil⟩⟩
    · have he' : past ++ [round] = (before ++ r :: between) ++ [last] := by simpa using he
      obtain ⟨hpast, hlast⟩ := List.append_inj' he' rfl
      obtain rfl : round = last := by simpa using hlast
      rw [List.concat_eq_append]
      exact ht.remembers ha hpast i hr

/-- **The run lemma.** -/
theorem Tracks.accepted {barrierMs : UInt64} {past : List ProducerRound}
    (ht : Tracks barrierMs past c) (calls : List (ProducerRound × Capture)) :
    ∃ c', Tracks barrierMs (past ++ c.accepted calls) c' := by
  induction calls generalizing c past with
  | nil => exact ⟨c, by simpa [Cursor.accepted] using ht⟩
  | cons call calls ih =>
    obtain ⟨round, now⟩ := call
    have hspec := spec_accept c round now
    rw [Cursor.accepted]
    rcases hexec : (Cursor.accept round now).exec c with ⟨e | u, c'⟩
    · simp only
      rw [hspec.of_error hexec]
      exact ih ht
    · obtain ⟨c'', h⟩ := ih (ht.accept (hspec.of_ok hexec))
      exact ⟨c'', by simpa using h⟩

/-- **The cursor admits no replay, re-aging or restoration.** A refused round changes nothing. Over
the rounds a stream of calls gets accepted, numbers increase and captures do not go back, every
observation lies between the barrier and its round's capture, and two samples of one source are one
sample reported throughout, or the later one is newer in number and in time. -/
theorem accepted_fresh {fixed : Result ApprovedPolicy} {epoch : ProducerEpoch}
    {barrierMs : UInt64} {c : Cursor} (h : new fixed epoch barrierMs = .ok c)
    (calls : List (ProducerRound × Capture)) :
    (∀ (c : Cursor) round now e c', (accept round now).exec c = (.error e, c') → c' = c) ∧
    ((c.accepted calls).map (·.sequence)).Pairwise (· < ·) ∧
    ((c.accepted calls).map (·.capturedBoottimeMs)).Pairwise (· ≤ ·) ∧
    ((c.accepted calls).map (·.capturedMonotonicMs)).Pairwise (· ≤ ·) ∧
    (∀ before r between r' rest, c.accepted calls = before ++ r :: (between ++ r' :: rest) →
      ∀ i, Renewed i r between r') ∧
    ∀ r ∈ c.accepted calls, ∀ (i : Fin 3) reading, r.sources[i].reading = some reading →
      barrierMs ≤ reading.2 ∧ reading.2 ≤ r.capturedBoottimeMs := by
  obtain ⟨c', ht⟩ := (tracks_new h).accepted calls
  rw [List.nil_append] at ht
  refine ⟨fun c round now e c' he => (spec_accept c round now).of_error he, ht.sequences.1,
    ?_, ?_, ht.renewed, ht.timely⟩
  · exact List.pairwise_map.mpr (ht.captures.1.imp And.left)
  · exact List.pairwise_map.mpr (ht.captures.1.imp And.right)

/-! ## A stream -/

def sampleEpoch : ProducerEpoch := ⟨Vector.replicate 16 1, 7, 1, Vector.replicate 32 3⟩

def sampleCursor : Cursor :=
  ⟨sampleEpoch, 100, 0, none, Vector.replicate 3 none, Vector.replicate 3 false⟩

/-- Round `sequence`, captured and received at `now`, with one source's data. -/
def sampleCall (sequence now : UInt64) (source : SourceData) : ProducerRound × Capture :=
  (⟨sampleEpoch, sequence, now, now, now.toNat, #v[source, .unavailable 2, .unavailable 3]⟩,
    ⟨now, now, now.toNat⟩)

/-- A sample, its repetition, a loss, the lost sample again, and a new one. -/
def sampleStream : List (ProducerRound × Capture) :=
  [sampleCall 1 200 (.measured 1 5 150 ⟨0, 9⟩), sampleCall 2 300 (.measured 1 5 150 ⟨0, 9⟩),
    sampleCall 3 400 (.unavailable 1), sampleCall 4 500 (.measured 1 5 150 ⟨0, 9⟩),
    sampleCall 5 600 (.measured 1 6 550 ⟨0, 9⟩)]

/-- The lost sample is refused, and the fifth round's is newer than the first one's. -/
theorem accepted_fresh_sample :
    new (.ok ⟨Vector.replicate 32 3⟩) sampleEpoch 100 = .ok sampleCursor ∧
    (sampleCursor.accepted sampleStream).map (·.sequence) = [1, 2, 3, 5] ∧
    ((sampleCursor.accepted sampleStream).map (·.sequence)).Pairwise (· < ·) := by
  have hnew : new (.ok ⟨Vector.replicate 32 3⟩) sampleEpoch 100 = .ok sampleCursor := rfl
  exact ⟨hnew, by decide, (accepted_fresh hnew sampleStream).2.1⟩

end Cursor

end LumaOS.Utc.Receiver
