import LumaOS.Utc.Bounds

/-!
# The UTC keeper

Model of `utc_keeper.rs:11-332`: the lifecycle that turns rounds of measurements into a current UTC
interval, and drops it at the first inconsistency. The policy's bytes are compiled in; what parsing
them gave is an argument of `Keeper.new`.

`Step` lists what a call can do to a keeper, and `call_step` says that every call of the six methods
does one of these. In particular no call panics.
-/

namespace LumaOS.Utc

open LumaOS.Base LumaOS.Governance

/-- `ROUND_BUDGET_MS`. -/
def roundBudgetMs : UInt64 := 1000

/-- `utc_keeper::State`. -/
inductive State where
  | uninitialized
  | acquiring
  | bounded
  | fenced
  | reconciliationRequired
deriving DecidableEq

/-- `utc_keeper::Clock`. -/
structure Clock where
  boottimeMs : UInt64
  monotonicMs : UInt64
  realtimeMs : Int
  suspendGeneration : UInt64

/-- `utc_keeper::Source`. -/
inductive Source where
  | unavailable (operator : UInt8)
  | measured (sequence : UInt64) (sample : Measurement) (normalLeap : Bool)

/-- `Source::operator`. -/
def Source.operator : Source → UInt8
  | .unavailable operator => operator
  | .measured _ sample _ => sample.operator

/-- A measured source's sequence number and sample. -/
def Source.reading : Source → Option (UInt64 × Measurement)
  | .unavailable _ => none
  | .measured sequence sample _ => some (sequence, sample)

/-- The samples of a source inventory: the `filter_map` of `candidate_at`. -/
def samplesOf (sources : Vector Source 3) : List Measurement :=
  sources.toList.filterMap fun source => source.reading.map Prod.snd

/-- `utc_keeper::Round`. -/
structure Round where
  epoch : Epoch
  sequence : UInt64
  capturedBoottimeMs : UInt64
  sources : Vector Source 3

/-- `utc_policy::ApprovedPolicy`. -/
structure ApprovedPolicy where
  digest : Vector UInt8 32

/-- `ApprovedPolicy::bounds`. -/
def ApprovedPolicy.bounds (_ : ApprovedPolicy) : Policy where
  maxAgeMs := 180000
  maxWidthMs := 500
  driftPpm := 100

/-- `utc_keeper::Keeper`. -/
structure Keeper where
  policy : ApprovedPolicy
  epoch : Epoch
  state : State
  floorMs : Int
  lastClock : Option Clock
  barrierMs : UInt64
  lastRound : UInt64
  lastSamples : Vector (Option (UInt64 × Measurement)) 3
  currentSources : Option (Vector Source 3)
  estimate : Option Interval

namespace Keeper

/-- `Keeper::new`; `fixed` is what `ApprovedPolicy::fixed()` returned. -/
def new (fixed : Result ApprovedPolicy) (bootId : Vector UInt8 16) (providerGeneration : UInt64)
    (floorMs : Int) : Result Keeper := do
  refuseIf (bootId == Vector.replicate 16 0 || providerGeneration == 0 || floorMs < 0)
    "uninitialized UTC lifecycle context"
  let policy ← fixed
  pure
    { policy
      epoch := { bootId, providerGeneration, clockGeneration := 1, policyDigest := policy.digest }
      state := .uninitialized
      floorMs
      lastClock := none
      barrierMs := 0
      lastRound := 0
      lastSamples := Vector.replicate 3 none
      currentSources := none
      estimate := none }

/-! ## Clock checks -/

/-- `validate_clock`. -/
def validateClock (clock : Clock) : Result Unit :=
  refuseIf (clock.realtimeMs < 0 || clock.boottimeMs < clock.monotonicMs)
    "invalid UTC clock observation"

/-- `Keeper::check_clock`. -/
def checkClock (k : Keeper) (now : Clock) : Result Unit := do
  validateClock now
  let old ← okOr k.lastClock "UTC acquisition has not started"
  let bootDelta ← okOr (u64Sub now.boottimeMs old.boottimeMs) "UTC boot clock regressed"
  let monoDelta ← okOr (u64Sub now.monotonicMs old.monotonicMs) "UTC monotonic clock regressed"
  refuseIf (now.suspendGeneration != old.suspendGeneration ||
      ((bootDelta.toNat : Int) - monoDelta.toNat).natAbs > 2)
    "UTC suspend or inconsistent elapsed clocks"
  let realDelta := now.realtimeMs - old.realtimeMs
  let allowed := divCeil (bootDelta.toNat * 100) 999900 + 2
  refuseIf ((realDelta - bootDelta.toNat).natAbs > allowed)
    "UTC wall clock step or rate inconsistency"

/-! ## Methods -/

/-- `Keeper::fence`. -/
def fence (k : Keeper) : Keeper :=
  { k with
    estimate := none
    currentSources := none
    state := if k.state = .reconciliationRequired then .reconciliationRequired else .fenced }

/-- `if result.is_err() { self.fence(); } result`. A panic would unwind past it. -/
def fenced {α : Type} (m : Mut Keeper α) : Mut Keeper α := ExceptT.mk fun k =>
  match m.exec k with
  | (.ok a, k') => (.ok a, k')
  | (.error (.refused message), k') => (.error (.refused message), k'.fence)
  | (.error (.panicked message), k') => (.error (.panicked message), k')

/-- `Keeper::check_boundary`. -/
def checkBoundary (now : Clock) : Mut Keeper Unit := fenced do
  let k ← get
  k.checkClock now

/-- `Keeper::reacquire`. -/
def reacquire (clock : Clock) : Mut Keeper Unit := fenced do
  let k ← get
  refuseIf (!(k.state == .uninitialized || k.state == .fenced))
    "UTC reacquisition requires an initial or fenced state"
  validateClock clock
  refuseIf (k.lastClock.any fun old =>
      clock.boottimeMs < old.boottimeMs || clock.monotonicMs < old.monotonicMs)
    "UTC monotonic regression cannot be rebased"
  let clockGeneration ←
    if k.state = .fenced then okOr (u64Add k.epoch.clockGeneration 1) "UTC generation overflow"
    else pure k.epoch.clockGeneration
  set { k with
    epoch := { k.epoch with clockGeneration }
    barrierMs := clock.boottimeMs
    lastClock := some clock
    estimate := none
    currentSources := none
    state := .acquiring }

/-- The comparison of a measurement with the last one of its operator. -/
def checkPrevious (previous : Option (UInt64 × Measurement)) (sequence : UInt64)
    (sample : Measurement) : Result Unit :=
  match previous with
  | none => pure ()
  | some (previousSequence, previousSample) =>
    refuseIf (sequence < previousSequence ||
        (sequence == previousSequence && sample != previousSample) ||
        (sequence > previousSequence &&
          sample.observedBoottimeMs ≤ previousSample.observedBoottimeMs))
      "UTC measurement replay, re-aging or timestamp regression"

theorem index_lt (index : Fin 3) : index.val < 3 := index.isLt

/-- One source of the loop of `refresh_inner`; the accumulator is `(next_samples, samples)`. -/
def sourceStep (k : Keeper) (round : Round)
    (acc : Vector (Option (UInt64 × Measurement)) 3 × List Measurement) (index : Fin 3) :
    Result (Vector (Option (UInt64 × Measurement)) 3 × List Measurement) := do
  let source := round.sources.get index
  refuseIf (source.operator.toNat != index.val + 1)
    "UTC round has duplicate, missing or reordered operators"
  match source with
  | .unavailable _ => pure acc
  | .measured sequence sample normalLeap => do
    refuseIf (!normalLeap || sequence == 0 || sample.observedBoottimeMs < k.barrierMs ||
        sample.observedBoottimeMs > round.capturedBoottimeMs)
      "UTC measurement has invalid leap, sequence or acquisition epoch"
    checkPrevious (k.lastSamples.get index) sequence sample
    pure (acc.1.set index (some (sequence, sample)) (index_lt index), acc.2 ++ [sample])

/-- The loop over the sources of a round. -/
def readSources (k : Keeper) (round : Round) :
    Result (Vector (Option (UInt64 × Measurement)) 3 × List Measurement) :=
  (List.finRange 3).foldlM (sourceStep k round) (k.lastSamples, [])

/-- The checks of `refresh_inner` before its loop. -/
def checkRound (k : Keeper) (round : Round) (now : Clock) : Result Unit := do
  refuseIf (!(k.state == .acquiring || k.state == .bounded))
    "UTC lifecycle is not acquiring or bounded"
  k.checkClock now
  refuseIf (round.epoch != k.epoch || round.sequence ≤ k.lastRound)
    "UTC round epoch mismatch or replay"
  let acquisitionAge ← okOr
    ((u64Sub now.boottimeMs round.capturedBoottimeMs).filter fun v => v ≤ roundBudgetMs)
    "UTC round is future-dated or acquisition timed out"
  let acquisitionError := divCeil (acquisitionAge.toNat * 100) 999900
  let lastClock ← expect k.lastClock "called `Option::unwrap()` on a `None` value"
  refuseIf (round.capturedBoottimeMs < lastClock.boottimeMs ||
      acquisitionAge.toNat + acquisitionError > roundBudgetMs.toNat)
    "UTC round predates its boundary or may exceed acquisition deadline"

/-- The loop over the samples of a round without quorum. -/
def projectEach (k : Keeper) (samples : List Measurement) (now : Clock) : Result Unit :=
  samples.forM fun sample => do
    let _ ← project sample now.boottimeMs k.epoch k.policy.bounds
    pure ()

/-- `Keeper::refresh_inner`. -/
def refreshInner (round : Round) (now : Clock) (acquiring : Bool) :
    Mut Keeper (Option Interval) := do
  let k ← get
  k.checkRound round now
  let (nextSamples, samples) ← k.readSources round
  if acquiring && k.state == .acquiring && samples.length < 2 then
    k.projectEach samples now
    set { k with
      lastSamples := nextSamples
      currentSources := some round.sources
      lastRound := round.sequence
      lastClock := some now
      estimate := none }
    return none
  let interval ← consensus samples now.boottimeMs k.epoch k.policy.bounds
  if interval.upperMs < k.floorMs then
    set { k with state := .reconciliationRequired }
    refuse "UTC candidate is behind protected history; preserve the fence"
  let bounded ← Interval.new (max interval.lowerMs k.floorMs) interval.upperMs
  set { k with
    lastSamples := nextSamples
    currentSources := some round.sources
    lastRound := round.sequence
    lastClock := some now
    estimate := some bounded
    state := .bounded }
  return some bounded

/-- `Keeper::refresh`. -/
def refresh (round : Round) (now : Clock) : Mut Keeper Interval := fenced do
  let candidate ← refreshInner round now false
  okOr candidate "UTC round has no quorum"

/-- `Keeper::acquire_round`. -/
def acquireRound (round : Round) (now : Clock) : Mut Keeper (Option Interval) := fenced do
  let k ← get
  if k.state = .acquiring then refreshInner round now true
  else refuse "UTC initial acquisition is no longer active"

/-- `Keeper::candidate_at`. -/
def candidateAt (now : Clock) : Mut Keeper Interval := fenced do
  let k ← get
  refuseIf (k.state != .bounded) "UTC lifecycle has no current candidate"
  k.checkClock now
  let sources ← okOr k.currentSources "missing UTC source inventory"
  let candidate ← consensus (samplesOf sources) now.boottimeMs k.epoch k.policy.bounds
  if candidate.upperMs < k.floorMs then
    set { k with state := .reconciliationRequired }
    refuse "UTC candidate is behind protected history"
  let candidate ← Interval.new (max candidate.lowerMs k.floorMs) candidate.upperMs
  set { k with lastClock := some now, estimate := some candidate }
  return candidate

end Keeper

/-! ## Operations -/

/-- One call of a keeper's method. -/
inductive Op where
  | reacquire (clock : Clock)
  | acquireRound (round : Round) (now : Clock)
  | refresh (round : Round) (now : Clock)
  | candidateAt (now : Clock)
  | checkBoundary (now : Clock)
  | fence

/-- The call; its value is the interval it returned, if any. -/
def Op.call : Op → Mut Keeper (Option Interval)
  | .reacquire clock => do
    Keeper.reacquire clock
    pure none
  | .acquireRound round now => Keeper.acquireRound round now
  | .refresh round now => do
    let interval ← Keeper.refresh round now
    pure (some interval)
  | .candidateAt now => do
    let interval ← Keeper.candidateAt now
    pure (some interval)
  | .checkBoundary now => do
    Keeper.checkBoundary now
    pure none
  | .fence => do
    modify Keeper.fence
    pure none

/-- The round a call offers. -/
def Op.round? : Op → Option (Round × Clock)
  | .acquireRound round now => some (round, now)
  | .refresh round now => some (round, now)
  | _ => none

/-! ## What one call does -/

/-- The clock does not go back from the last one taken. -/
def Keeper.Later (k : Keeper) (now : Clock) : Prop :=
  ∀ old, k.lastClock = some old →
    old.boottimeMs ≤ now.boottimeMs ∧ old.monotonicMs ≤ now.monotonicMs

/-- A reading may follow another of the same operator: sequence numbers do not go back, the same
number is the same sample, and a greater one is a later observation. -/
def Follows (previous next : UInt64 × Measurement) : Prop :=
  previous.1 ≤ next.1 ∧ (previous.1 = next.1 → previous.2 = next.2) ∧
    (previous.1 < next.1 → previous.2.observedBoottimeMs < next.2.observedBoottimeMs)

/-- A source that `refresh_inner` takes at an index. -/
def Keeper.Admits (k : Keeper) (round : Round) (index : Fin 3) : Prop :=
  (round.sources.get index).operator.toNat = index.val + 1 ∧
    ∀ reading, (round.sources.get index).reading = some reading →
      k.barrierMs ≤ reading.2.observedBoottimeMs ∧
      ∀ previous, k.lastSamples.get index = some previous → Follows previous reading

/-- A round that `refresh_inner` takes. -/
structure Keeper.Accepts (k : Keeper) (round : Round) (now : Clock) : Prop where
  live : k.state = .acquiring ∨ k.state = .bounded
  later : k.Later now
  fresh : k.lastRound < round.sequence
  sources : ∀ index, k.Admits round index

/-- The readings after a round: the new ones over the old ones. -/
def Keeper.nextSamples (k : Keeper) (round : Round) :
    Vector (Option (UInt64 × Measurement)) 3 :=
  Vector.ofFn fun index => (round.sources.get index).reading.or (k.lastSamples.get index)

/-- The keeper after a round. -/
def Keeper.take (k : Keeper) (round : Round) (now : Clock) (estimate : Option Interval)
    (state : State) : Keeper :=
  { k with
    lastSamples := k.nextSamples round
    currentSources := some round.sources
    lastRound := round.sequence
    lastClock := some now
    estimate
    state }

/-- The interval is the consensus of the sources, cut at the floor. -/
def Keeper.Estimates (k : Keeper) (sources : Vector Source 3) (now : Clock) (i : Interval) :
    Prop :=
  ∃ candidate, consensus (samplesOf sources) now.boottimeMs k.epoch k.policy.bounds =
    .ok candidate ∧ i = ⟨max candidate.lowerMs k.floorMs, candidate.upperMs⟩

/-- The keeper without an estimate. -/
def Keeper.close (k : Keeper) (state : State) : Keeper :=
  { k with estimate := none, currentSources := none, state }

/-- **What a call can do.** -/
inductive Step (k : Keeper) : Op → Result (Option Interval) → Keeper → Prop
  | refused (op : Op) (message : String) (state : State)
      (hstate : state = .fenced ∨ state = .reconciliationRequired)
      (hrec : k.state = .reconciliationRequired → state = .reconciliationRequired)
      (hfenced : k.state = .fenced → state = .fenced) :
      Step k op (.error (.refused message)) (k.close state)
  | fence : Step k .fence (.ok none) k.fence
  | checked (now : Clock) : Step k (.checkBoundary now) (.ok none) k
  | reacquired (clock : Clock) (clockGeneration : UInt64)
      (hstate : k.state = .uninitialized ∨ k.state = .fenced) (hlater : k.Later clock)
      (hgeneration : k.state = .fenced → k.epoch.clockGeneration < clockGeneration) :
      Step k (.reacquire clock) (.ok none)
        { k.close .acquiring with
          epoch := { k.epoch with clockGeneration }
          barrierMs := clock.boottimeMs
          lastClock := some clock }
  | gathered (op : Op) (round : Round) (now : Clock) (hop : op.round? = some (round, now))
      (haccepts : k.Accepts round now) (hstate : k.state = .acquiring) :
      Step k op (.ok none) (k.take round now none .acquiring)
  | bounded (op : Op) (round : Round) (now : Clock) (i : Interval)
      (hop : op.round? = some (round, now)) (haccepts : k.Accepts round now)
      (hestimates : k.Estimates round.sources now i) :
      Step k op (.ok (some i)) (k.take round now (some i) .bounded)
  | renewed (now : Clock) (sources : Vector Source 3) (i : Interval)
      (hstate : k.state = .bounded) (hlater : k.Later now)
      (hsources : k.currentSources = some sources) (hestimates : k.Estimates sources now i) :
      Step k (.candidateAt now) (.ok (some i))
        { k with lastClock := some now, estimate := some i }

section Calls

variable {k : Keeper} {round : Round} {now : Clock}

theorem checkClock_later {u : Unit} (h : k.checkClock now = .ok u) :
    (∃ old, k.lastClock = some old) ∧ k.Later now := by
  simp only [Keeper.checkClock, bind_eq_ok, okOr_eq_ok, u64Sub_eq_some] at h
  obtain ⟨_, -, old, hold, _, ⟨hboot, -⟩, _, ⟨hmono, -⟩, -⟩ := h
  refine ⟨⟨old, hold⟩, fun old' hold' => ?_⟩
  obtain rfl := Option.some.inj (hold.symm.trans hold')
  exact ⟨hboot, hmono⟩

instance noPanic_validateClock : NoPanic (Keeper.validateClock now) := by
  unfold Keeper.validateClock
  infer_instance

instance noPanic_checkClock : NoPanic (k.checkClock now) := by
  unfold Keeper.checkClock
  infer_instance

/-- `unwrap` comes after the clock check, which refuses a keeper without a clock. -/
instance noPanic_checkRound : NoPanic (k.checkRound round now) := by
  unfold Keeper.checkRound
  refine noPanic_bind inferInstance fun _ _ => noPanic_bind inferInstance fun _ hclock => ?_
  refine noPanic_bind inferInstance fun _ _ => noPanic_bind inferInstance fun _ _ => ?_
  obtain ⟨⟨old, hold⟩, -⟩ := checkClock_later hclock
  exact noPanic_bind (noPanic_expect hold _) fun _ _ => inferInstance

instance noPanic_readSources : NoPanic (k.readSources round) := by
  refine noPanic_foldlM (fun acc index => ?_) _ _
  unfold Keeper.sourceStep
  refine noPanic_bind inferInstance fun _ _ => ?_
  split
  · infer_instance
  · unfold Keeper.checkPrevious
    refine noPanic_bind inferInstance fun _ _ => noPanic_bind ?_ fun _ _ => inferInstance
    split
    · infer_instance
    · infer_instance

instance noPanic_projectEach (samples : List Measurement) :
    NoPanic (k.projectEach samples now) := by
  unfold Keeper.projectEach
  infer_instance

theorem checkRound_eq_ok {u : Unit} (h : k.checkRound round now = .ok u) :
    (k.state = .acquiring ∨ k.state = .bounded) ∧ k.Later now ∧ k.lastRound < round.sequence := by
  simp only [Keeper.checkRound, bind_eq_ok, refuseIf_eq_ok, Bool.not_eq_false', Bool.or_eq_true,
    beq_iff_eq, Bool.or_eq_false_iff, decide_eq_false_iff_not, UInt64.not_le] at h
  obtain ⟨_, hlive, _, hclock, _, ⟨-, hfresh⟩, -⟩ := h
  exact ⟨hlive, (checkClock_later hclock).2, hfresh⟩

theorem checkPrevious_eq_ok {previous : Option (UInt64 × Measurement)} {sequence : UInt64}
    {sample : Measurement} {u : Unit}
    (h : Keeper.checkPrevious previous sequence sample = .ok u) :
    ∀ p, previous = some p → Follows p (sequence, sample) := by
  rintro ⟨previousSequence, previousSample⟩ rfl
  simp only [Keeper.checkPrevious, refuseIf_eq_ok, Bool.or_eq_false_iff, Bool.and_eq_false_imp,
    decide_eq_false_iff_not, beq_iff_eq, bne_eq_false_iff_eq, decide_eq_true_eq, UInt64.not_lt,
    UInt64.not_le, gt_iff_lt] at h
  obtain ⟨⟨hle, hsame⟩, hlater⟩ := h
  exact ⟨hle, fun he => (hsame he.symm).symm, hlater⟩

theorem sourceStep_eq_ok {acc acc' : Vector (Option (UInt64 × Measurement)) 3 × List Measurement}
    {index : Fin 3} (h : k.sourceStep round acc index = .ok acc') :
    k.Admits round index ∧
      acc' = (acc.1.set index ((round.sources.get index).reading.or (acc.1.get index))
          (Keeper.index_lt index),
        acc.2 ++ ((round.sources.get index).reading.map Prod.snd).toList) := by
  unfold Keeper.sourceStep at h
  dsimp only at h
  obtain ⟨_, hop, h⟩ := bind_eq_ok.mp h
  rw [refuseIf_eq_ok, bne_eq_false_iff_eq] at hop
  unfold Keeper.Admits
  generalize round.sources.get index = source at h hop ⊢
  split at h
  · rw [pure_eq_ok] at h
    subst h
    refine ⟨⟨hop, fun _ hr => (by cases hr)⟩, ?_⟩
    have hsame : acc.1.set index (acc.1.get index) (Keeper.index_lt index) = acc.1 :=
      Vector.set_getElem_self index.isLt
    simp [Source.reading, hsame]
  · simp only [bind_eq_ok, refuseIf_eq_ok, Bool.or_eq_false_iff, decide_eq_false_iff_not,
      UInt64.not_lt, gt_iff_lt, pure_eq_ok] at h
    obtain ⟨_, ⟨⟨-, hbarrier⟩, -⟩, _, hprevious, rfl⟩ := h
    refine ⟨⟨hop, ?_⟩, rfl⟩
    rintro _ ⟨⟩
    exact ⟨hbarrier, checkPrevious_eq_ok hprevious⟩

theorem readSources_eq_ok {acc : Vector (Option (UInt64 × Measurement)) 3 × List Measurement}
    (h : k.readSources round = .ok acc) :
    (∀ index, k.Admits round index) ∧ acc = (k.nextSamples round, samplesOf round.sources) := by
  have hrange : List.finRange 3 = [0, 1, 2] := rfl
  simp only [Keeper.readSources, hrange, List.foldlM_cons, List.foldlM_nil, bind_eq_ok,
    pure_eq_ok] at h
  obtain ⟨a, ha, b, hb, c, hc, rfl⟩ := h
  obtain ⟨h₀, rfl⟩ := sourceStep_eq_ok ha
  obtain ⟨h₁, rfl⟩ := sourceStep_eq_ok hb
  obtain ⟨h₂, rfl⟩ := sourceStep_eq_ok hc
  refine ⟨fun index => ?_, Prod.ext ?_ ?_⟩
  · match index with
    | 0 => exact h₀
    | 1 => exact h₁
    | 2 => exact h₂
  · clear ha hb hc
    unfold Keeper.nextSamples
    generalize k.lastSamples = last
    obtain ⟨⟨l⟩, hl⟩ := last
    obtain ⟨x, y, z, rfl⟩ := List.length_eq_three.mp hl
    rfl
  · clear ha hb hc h₀ h₁ h₂
    generalize round.sources = sources
    obtain ⟨⟨l⟩, hl⟩ := sources
    obtain ⟨x, y, z, rfl⟩ := List.length_eq_three.mp hl
    simp only [samplesOf, Vector.toList_mk, List.filterMap_cons, List.filterMap_nil,
      List.nil_append]
    change (x.reading.map Prod.snd).toList ++ (y.reading.map Prod.snd).toList ++
      (z.reading.map Prod.snd).toList = _
    cases x.reading <;> cases y.reading <;> cases z.reading <;> rfl

/-- **What `refresh_inner` does**: it refuses and changes nothing, or finds the candidate behind the
floor, or takes the round. -/
inductive Inner (k : Keeper) (round : Round) (now : Clock) (acquiring : Bool) :
    Result (Option Interval) → Keeper → Prop
  | refused (message : String) : Inner k round now acquiring (.error (.refused message)) k
  | behind (message : String) (hlive : k.state = .acquiring ∨ k.state = .bounded) :
      Inner k round now acquiring (.error (.refused message))
        { k with state := .reconciliationRequired }
  | gathered (hacquiring : acquiring = true) (haccepts : k.Accepts round now)
      (hstate : k.state = .acquiring) :
      Inner k round now acquiring (.ok none) (k.take round now none .acquiring)
  | bounded (i : Interval) (haccepts : k.Accepts round now)
      (hestimates : k.Estimates round.sources now i) :
      Inner k round now acquiring (.ok (some i)) (k.take round now (some i) .bounded)

theorem Inner.of_noPanic {acquiring : Bool} {α : Type} {r : Result α} [hr : NoPanic r] (e : Stop)
    (h : r = .error e) : Inner k round now acquiring (.error e) k := by
  cases e with
  | refused message => exact .refused message
  | panicked message => exact absurd h (hr.out message)

theorem interval_new_eq_ok {lower upper : Int} {i : Interval}
    (h : Interval.new lower upper = .ok i) : i = ⟨lower, upper⟩ := by
  simp only [Interval.new, bind_eq_ok, pure_eq_ok] at h
  obtain ⟨_, -, rfl⟩ := h
  rfl

theorem refreshInner_yields (acquiring : Bool) :
    (Keeper.refreshInner round now acquiring).Yields k (Inner k round now acquiring) := by
  unfold Keeper.refreshInner
  refine Mut.yields_bind_get ?_
  refine Mut.yields_bind_lift Inner.of_noPanic fun _ hround => ?_
  refine Mut.yields_bind_lift Inner.of_noPanic fun acc hsources => ?_
  obtain ⟨hlive, hlater, hfresh⟩ := checkRound_eq_ok hround
  obtain ⟨hadmits, rfl⟩ := readSources_eq_ok hsources
  have haccepts : k.Accepts round now := ⟨hlive, hlater, hfresh, hadmits⟩
  dsimp only
  split
  · rename_i hgather
    simp only [Bool.and_eq_true, beq_iff_eq, decide_eq_true_eq] at hgather
    obtain ⟨⟨hacquiring, hstate⟩, -⟩ := hgather
    refine Mut.yields_bind_lift Inner.of_noPanic fun _ _ => Mut.yields_bind_set ?_
    refine Mut.yields_pure ?_
    have := Inner.gathered (k := k) hacquiring haccepts hstate
    unfold Keeper.take at this
    rwa [← hstate] at this
  · refine Mut.yields_bind_lift Inner.of_noPanic fun candidate hcandidate => ?_
    split
    · exact Mut.yields_bind_set (Mut.yields_bind_lift
        (fun e he => by cases he; exact .behind _ hlive) fun _ h => absurd h refuse_ne_ok)
    · refine Mut.yields_bind_lift Inner.of_noPanic fun i hi => Mut.yields_bind_set ?_
      obtain rfl := interval_new_eq_ok hi
      exact Mut.yields_pure (.bounded _ haccepts ⟨candidate, hcandidate, rfl⟩)

theorem fenced_yields {α : Type} {m : Mut Keeper α} {T : Result α → Keeper → Prop}
    (h : m.Yields k fun r k' => match r with
      | .ok a => T (.ok a) k'
      | .error (.refused message) => T (.error (.refused message)) k'.fence
      | .error (.panicked message) => T (.error (.panicked message)) k') :
    (Keeper.fenced m).Yields k T := by
  have hexec : (Keeper.fenced m).exec k = match m.exec k with
    | (.ok a, k') => (.ok a, k')
    | (.error (.refused message), k') => (.error (.refused message), k'.fence)
    | (.error (.panicked message), k') => (.error (.panicked message), k') := rfl
  unfold Mut.Yields at h ⊢
  rw [hexec]
  generalize m.exec k = outcome at h
  rcases outcome with ⟨⟨_ | _⟩ | a, k'⟩
  · exact h
  · exact h
  · exact h

/-- A keeper that is fenced where it stands. -/
theorem Step.of_fence (op : Op) (message : String) :
    Step k op (.error (.refused message)) k.fence := by
  refine Step.refused op message (if k.state = .reconciliationRequired then
    .reconciliationRequired else .fenced) ?_ (fun h => if_pos h) (fun h => ?_)
  · split
    · exact .inr rfl
    · exact .inl rfl
  · rw [h]
    rfl

/-- The candidate was behind the floor. -/
theorem Step.of_behind (op : Op) (message : String)
    (hlive : k.state = .acquiring ∨ k.state = .bounded) :
    Step k op (.error (.refused message))
      (Keeper.fence { k with state := .reconciliationRequired }) := by
  refine Step.refused op message .reconciliationRequired (.inr rfl) (fun _ => rfl) (fun h => ?_)
  rw [h] at hlive
  rcases hlive with hlive | hlive <;> cases hlive

/-- What a call that did not return has done once it is fenced: what `Step` says for its result. -/
def Settles (op : Op) (k : Keeper) (stop : Stop) (k' : Keeper) : Prop :=
  match stop with
  | .refused message => Step k op (.error (.refused message)) k'.fence
  | .panicked _ => False

theorem Settles.of_noPanic {α : Type} {op : Op} {r : Result α} [hr : NoPanic r] (e : Stop)
    (h : r = .error e) : Settles op k e k := by
  cases e with
  | refused message => exact Step.of_fence op message
  | panicked message => exact absurd h (hr.out message)

/-- A fenced method of a call. -/
theorem fenced_settles {α : Type} {m : Mut Keeper α} {op : Op} {f : α → Option Interval}
    (h : m.Yields k fun r k' => match r with
      | .ok a => Step k op (.ok (f a)) k'
      | .error e => Settles op k e k') :
    (Keeper.fenced m >>= fun a => pure (f a)).Yields k (Step k op) := by
  refine Mut.yields_bind (fenced_yields (h.mono fun r k' hr => ?_))
  match r with
  | .ok a => exact hr
  | .error (.refused message) => exact hr
  | .error (.panicked message) => exact hr.elim

theorem reacquire_step (clock : Clock) :
    (Op.reacquire clock).call.Yields k (Step k (.reacquire clock)) := by
  refine fenced_settles (f := fun _ => none) ?_
  refine Mut.yields_bind_get ?_
  refine Mut.yields_bind_lift Settles.of_noPanic fun _ hstate => ?_
  refine Mut.yields_bind_lift Settles.of_noPanic fun _ _ => ?_
  refine Mut.yields_bind_lift Settles.of_noPanic fun _ hclock => ?_
  simp only [refuseIf_eq_ok, Bool.not_eq_false', Bool.or_eq_true, beq_iff_eq] at hstate hclock
  have hlater : k.Later clock := by
    intro old hold
    rw [hold, Option.any_some, Bool.or_eq_false_iff, decide_eq_false_iff_not,
      decide_eq_false_iff_not, UInt64.not_lt, UInt64.not_lt] at hclock
    exact hclock
  split
  · rename_i hfenced
    refine Mut.yields_bind_lift Settles.of_noPanic fun clockGeneration hnext => ?_
    rw [okOr_eq_ok, u64Add_eq_some] at hnext
    refine Mut.yields_set (Step.reacquired clock clockGeneration hstate hlater fun _ => ?_)
    rw [UInt64.lt_iff_toNat_lt, hnext]
    exact Nat.lt_succ_self _
  · rename_i hfenced
    refine Mut.yields_bind (Mut.yields_pure (Mut.yields_set ?_))
    exact Step.reacquired clock k.epoch.clockGeneration hstate hlater fun h => absurd h hfenced

theorem candidateAt_step (now : Clock) :
    (Op.candidateAt now).call.Yields k (Step k (.candidateAt now)) := by
  refine fenced_settles (f := some) ?_
  refine Mut.yields_bind_get ?_
  refine Mut.yields_bind_lift Settles.of_noPanic fun _ hstate => ?_
  refine Mut.yields_bind_lift Settles.of_noPanic fun _ hclock => ?_
  refine Mut.yields_bind_lift Settles.of_noPanic fun sources hsources => ?_
  refine Mut.yields_bind_lift Settles.of_noPanic fun candidate hcandidate => ?_
  rw [refuseIf_eq_ok, bne_eq_false_iff_eq] at hstate
  rw [okOr_eq_ok] at hsources
  split
  · exact Mut.yields_bind_set (Mut.yields_bind_lift
      (fun e he => by cases he; exact Step.of_behind _ _ (.inr hstate))
      fun _ h => absurd h refuse_ne_ok)
  · refine Mut.yields_bind_lift Settles.of_noPanic fun i hi => Mut.yields_bind_set ?_
    obtain rfl := interval_new_eq_ok hi
    exact Mut.yields_pure (.renewed now sources _ hstate (checkClock_later hclock).2 hsources
      ⟨candidate, hcandidate, rfl⟩)

theorem Inner.settles {acquiring : Bool} {e : Stop} {k' : Keeper} {op : Op}
    (h : Inner k round now acquiring (.error e) k') : Settles op k e k' := by
  cases h with
  | refused message => exact Step.of_fence op message
  | behind message hlive => exact Step.of_behind op message hlive

theorem refresh_step : (Op.refresh round now).call.Yields k (Step k (.refresh round now)) := by
  refine fenced_settles (f := some) ?_
  refine Mut.yields_bind ((refreshInner_yields false).mono fun r k' hr => ?_)
  cases r with
  | error e => exact hr.settles
  | ok candidate =>
    cases hr with
    | gathered hacquiring => cases hacquiring
    | bounded i haccepts hestimates =>
      exact Mut.yields_lift (.bounded _ round now i rfl haccepts hestimates)

theorem acquireRound_step :
    (Op.acquireRound round now).call.Yields k (Step k (.acquireRound round now)) := by
  rw [show (Op.acquireRound round now).call = (Op.acquireRound round now).call >>= pure from
    (bind_pure _).symm]
  refine fenced_settles (f := id) (Mut.yields_bind_get ?_)
  split
  · refine (refreshInner_yields true).mono fun r k' hr => ?_
    cases hr with
    | refused message => exact Step.of_fence _ message
    | behind message hlive => exact Step.of_behind _ message hlive
    | gathered _ haccepts hstate => exact .gathered _ round now rfl haccepts hstate
    | bounded i haccepts hestimates => exact .bounded _ round now i rfl haccepts hestimates
  · exact Step.of_fence _ _

theorem checkBoundary_step :
    (Op.checkBoundary now).call.Yields k (Step k (.checkBoundary now)) := by
  refine fenced_settles (f := fun _ => none) (Mut.yields_bind_get ?_)
  unfold Mut.Yields
  rw [Mut.exec_lift]
  cases hr : k.checkClock now with
  | ok u => exact .checked now
  | error e => exact Settles.of_noPanic e hr

/-- **Every call is a step.** -/
theorem call_step (op : Op) : op.call.Yields k (Step k op) := by
  cases op with
  | reacquire clock => exact reacquire_step clock
  | acquireRound round now => exact acquireRound_step
  | refresh round now => exact refresh_step
  | candidateAt now => exact candidateAt_step now
  | checkBoundary now => exact checkBoundary_step
  | fence => exact Step.fence

end Calls

end LumaOS.Utc
