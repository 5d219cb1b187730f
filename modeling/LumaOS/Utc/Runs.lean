import LumaOS.Base.Trace
import LumaOS.Utc.Keeper

/-!
# Runs of the UTC keeper

`LumaOS.Utc.Keeper` says what one call does (`Step`, `call_step`). Here a run is the list of its
calls with the keepers between them, and what the keeper holds is tied to that list:

* `Known past k`: the keeper's counters, readings, sources and barrier are those of the rounds taken
  and the latest `reacquire` in `past`. One call keeps it (`Step.known`), so every call of a run is
  made by a keeper that knows its past (`trace_rule`).
* the per-call facts (`Step.interval`, `Step.error_closes`, `Step.reconciliation_kept`,
  `Step.unfenced`, `Step.clocksGrow`) are read off the cases of `Step`.

**`keeper_lifecycle`** is the conjunction over whole runs, refused calls included.
-/

namespace LumaOS.Utc

open LumaOS.Base LumaOS.Governance

/-! ## Entries -/

/-- One call of a run, with the keeper before and after it. -/
abbrev Entry := Base.Entry Keeper Op (Option Interval)

/-- A run of calls, refused ones included. -/
abbrev trace : Keeper → List Op → List Entry := Base.trace Op.call

/-- The clock of the latest `reacquire` of a run. -/
def latestReacquire (past : List Entry) : Option Clock :=
  past.reverse.findSome? fun e => match e.op with
    | .reacquire clock => some clock
    | _ => none

/-- The round a call took. -/
def accepted (e : Entry) : Option Round :=
  match e.op.round?, e.result with
  | some (round, _), .ok _ => some round
  | _, _ => none

/-- The rounds a run took. -/
def acceptedRounds (past : List Entry) : List Round := past.filterMap accepted

/-- The readings of a round. -/
def Round.readings (round : Round) : List (UInt64 × Measurement) :=
  round.sources.toList.filterMap Source.reading

/-- A later round may follow an earlier one: a greater sequence number, and readings of the same
operator that follow. -/
def Round.Precedes (earlier later : Round) : Prop :=
  earlier.sequence < later.sequence ∧
    ∀ x ∈ earlier.readings, ∀ y ∈ later.readings, x.2.operator = y.2.operator → Follows x y

/-- The last clock stays and does not go back. -/
def ClocksGrow (a b : Keeper) : Prop :=
  ∀ old, a.lastClock = some old → ∃ clock, b.lastClock = some clock ∧
    old.boottimeMs ≤ clock.boottimeMs ∧ old.monotonicMs ≤ clock.monotonicMs

/-- The interval a call returned, explained: the cut consensus of the samples of the latest round
taken, all of the current epoch and observed since the latest `reacquire`. -/
def Explains (e : Entry) (past : List Entry) (i : Interval) : Prop :=
  ∃ round reacquired now candidate,
    (acceptedRounds (past ++ [e])).getLast? = some round ∧
    latestReacquire past = some reacquired ∧ e.after.lastClock = some now ∧
    consensus (samplesOf round.sources) now.boottimeMs e.after.epoch e.after.policy.bounds =
      .ok candidate ∧
    i = ⟨max candidate.lowerMs e.after.floorMs, candidate.upperMs⟩ ∧
    ∀ s ∈ samplesOf round.sources,
      s.epoch = e.after.epoch ∧ reacquired.boottimeMs ≤ s.observedBoottimeMs

theorem Follows.refl (x : UInt64 × Measurement) : Follows x x :=
  ⟨UInt64.le_refl _, fun _ => rfl, fun h => absurd h (UInt64.lt_irrefl _)⟩

theorem Follows.trans {x y z : UInt64 × Measurement} (hxy : Follows x y) (hyz : Follows y z) :
    Follows x z := by
  obtain ⟨hle, hsame, hlater⟩ := hxy
  obtain ⟨hle', hsame', hlater'⟩ := hyz
  refine ⟨UInt64.le_trans hle hle', fun he => ?_, fun hlt => ?_⟩
  · have hy : x.1 = y.1 := UInt64.le_antisymm hle (he ▸ hle')
    exact (hsame hy).trans (hsame' (hy.symm.trans he))
  · by_cases hy : x.1 = y.1
    · rw [hsame hy]
      exact hlater' (hy ▸ hlt)
    · have hxy := hlater (UInt64.lt_of_le_of_ne hle hy)
      by_cases hz : y.1 = z.1
      · rw [← hsame' hz]
        exact hxy
      · exact UInt64.lt_trans hxy (hlater' (UInt64.lt_of_le_of_ne hle' hz))

theorem ClocksGrow.refl (k : Keeper) : ClocksGrow k k :=
  fun old h => ⟨old, h, UInt64.le_refl _, UInt64.le_refl _⟩

theorem ClocksGrow.trans {a b c : Keeper} (hab : ClocksGrow a b) (hbc : ClocksGrow b c) :
    ClocksGrow a c := by
  intro old hold
  obtain ⟨mid, hmid, hboot, hmono⟩ := hab old hold
  obtain ⟨clock, hclock, hboot', hmono'⟩ := hbc mid hmid
  exact ⟨clock, hclock, UInt64.le_trans hboot hboot', UInt64.le_trans hmono hmono'⟩

theorem Keeper.Later.grow {a b : Keeper} {now : Clock} (h : a.Later now)
    (hb : b.lastClock = some now) : ClocksGrow a b :=
  fun old hold => ⟨now, hb, h old hold⟩

/-! ## One step -/

section Steps

variable {k k' : Keeper} {op : Op} {result : Result (Option Interval)} {past : List Entry}

theorem Step.clocksGrow (h : Step k op result k') : ClocksGrow k k' := by
  cases h with
  | refused | fence | checked => exact ClocksGrow.refl k
  | reacquired clock _ _ hlater => exact hlater.grow rfl
  | gathered _ round now _ haccepts | bounded _ round now i _ haccepts =>
    exact haccepts.later.grow rfl
  | renewed now sources i _ hlater => exact hlater.grow rfl

theorem Step.error_closes (h : Step k op result k') {stop : Stop} (hr : result = .error stop) :
    k'.estimate = none ∧ (k'.state = .fenced ∨ k'.state = .reconciliationRequired) := by
  subst hr
  cases h with
  | refused _ message state hstate => exact ⟨rfl, hstate⟩

theorem Step.reconciliation_kept (h : Step k op result k')
    (hk : k.state = .reconciliationRequired) : k'.state = .reconciliationRequired := by
  cases h with
  | refused _ message state _ hrec => exact hrec hk
  | fence => exact if_pos hk
  | checked => exact hk
  | reacquired _ _ hstate => rcases hstate with hs | hs <;> rw [hk] at hs <;> cases hs
  | gathered _ _ _ _ _ hstate => rw [hk] at hstate; cases hstate
  | bounded _ _ _ _ _ haccepts =>
    rcases haccepts.live with hs | hs <;> rw [hk] at hs <;> cases hs
  | renewed _ _ _ hstate => exact hk

theorem Step.unfenced (h : Step k op result k') (hk : k.state = .fenced)
    (hk' : k'.state ≠ .fenced) :
    ∃ clock, op = .reacquire clock ∧ k.epoch.clockGeneration < k'.epoch.clockGeneration := by
  cases h with
  | refused _ message state _ _ hfenced => exact absurd (hfenced hk) hk'
  | fence => exact absurd (by rw [Keeper.fence, hk]; rfl) hk'
  | checked => exact absurd hk hk'
  | reacquired clock _ _ _ hgeneration => exact ⟨clock, rfl, hgeneration hk⟩
  | gathered _ _ _ _ _ hstate => rw [hk] at hstate; cases hstate
  | bounded _ _ _ _ _ haccepts =>
    rcases haccepts.live with hs | hs <;> rw [hk] at hs <;> cases hs
  | renewed _ _ _ hstate => rw [hk] at hstate; cases hstate

/-- **What a keeper knows of its past.** -/
structure Known (past : List Entry) (k : Keeper) : Prop where
  rounds : (acceptedRounds past).Pairwise Round.Precedes
  sequence : ∀ round ∈ acceptedRounds past, round.sequence ≤ k.lastRound
  operators : ∀ round ∈ acceptedRounds past, ∀ index : Fin 3,
    (round.sources.get index).operator.toNat = index.val + 1
  last : ∀ round ∈ acceptedRounds past, ∀ (index : Fin 3) reading,
    (round.sources.get index).reading = some reading →
      ∃ known, k.lastSamples.get index = some known ∧ Follows reading known
  barrier : k.state = .acquiring ∨ k.state = .bounded →
    ∃ clock, latestReacquire past = some clock ∧ clock.boottimeMs = k.barrierMs
  current : ∀ sources, k.currentSources = some sources →
    (∃ round, (acceptedRounds past).getLast? = some round ∧ round.sources = sources) ∧
    ∀ s ∈ samplesOf sources, k.barrierMs ≤ s.observedBoottimeMs

theorem acceptedRounds_append (e : Entry) :
    acceptedRounds (past ++ [e]) = acceptedRounds past ++ (accepted e).toList := by
  simp only [acceptedRounds, List.filterMap_append, List.filterMap_cons, List.filterMap_nil]
  cases accepted e <;> rfl

/-- A call that takes no round and is no `reacquire` leaves what is known, as long as the keeper
keeps no more than it did. -/
theorem Known.keep (h : Known past k) {e : Entry} (haccepted : accepted e = none)
    (hlatest : latestReacquire (past ++ [e]) = latestReacquire past)
    (hlive : k'.state = .acquiring ∨ k'.state = .bounded →
      k.state = .acquiring ∨ k.state = .bounded)
    (hround : k'.lastRound = k.lastRound) (hsamples : k'.lastSamples = k.lastSamples)
    (hbarrier : k'.barrierMs = k.barrierMs)
    (hcurrent : ∀ sources, k'.currentSources = some sources → k.currentSources = some sources) :
    Known (past ++ [e]) k' := by
  have hrounds : acceptedRounds (past ++ [e]) = acceptedRounds past := by
    rw [acceptedRounds_append, haccepted, Option.toList_none, List.append_nil]
  refine ⟨hrounds ▸ h.rounds, ?_, hrounds ▸ h.operators, ?_, ?_, ?_⟩
  · rw [hrounds, hround]
    exact h.sequence
  · rw [hrounds, hsamples]
    exact h.last
  · rw [hlatest, hbarrier]
    exact fun hs => h.barrier (hlive hs)
  · rw [hrounds, hbarrier]
    exact fun sources hs => h.current sources (hcurrent sources hs)

theorem latestReacquire_append (e : Entry) (h : ∀ clock, e.op ≠ .reacquire clock) :
    latestReacquire (past ++ [e]) = latestReacquire past := by
  simp only [latestReacquire, List.reverse_append, List.reverse_cons, List.reverse_nil,
    List.nil_append, List.singleton_append, List.findSome?_cons]

theorem latestReacquire_reacquire (k k' : Keeper) (clock : Clock)
    (result : Result (Option Interval)) :
    latestReacquire (past ++ [⟨k, .reacquire clock, result, k'⟩]) = some clock := by
  simp only [latestReacquire, List.reverse_append, List.reverse_cons, List.reverse_nil,
    List.nil_append, List.singleton_append, List.findSome?_cons]

theorem mem_readings {round : Round} {reading : UInt64 × Measurement}
    (h : reading ∈ round.readings) :
    ∃ index : Fin 3, (round.sources.get index).reading = some reading := by
  obtain ⟨source, hmem, hreading⟩ := List.mem_filterMap.mp h
  obtain ⟨i, hi, rfl⟩ := Vector.mem_iff_getElem.mp (Vector.mem_toList_iff.mp hmem)
  exact ⟨⟨i, hi⟩, hreading⟩

theorem mem_samplesOf {sources : Vector Source 3} {sample : Measurement}
    (h : sample ∈ samplesOf sources) :
    ∃ (index : Fin 3) (sequence : UInt64), (sources.get index).reading = some (sequence, sample) := by
  obtain ⟨source, hmem, hsample⟩ := List.mem_filterMap.mp h
  obtain ⟨⟨sequence, sample⟩, hreading, rfl⟩ := Option.map_eq_some_iff.mp hsample
  obtain ⟨i, hi, rfl⟩ := Vector.mem_iff_getElem.mp (Vector.mem_toList_iff.mp hmem)
  exact ⟨⟨i, hi⟩, sequence, hreading⟩

theorem operator_of_reading {source : Source} {reading : UInt64 × Measurement}
    (h : source.reading = some reading) : source.operator = reading.2.operator := by
  cases source with
  | unavailable => cases h
  | measured sequence sample normalLeap =>
    cases h
    rfl

/-- Where operators stand at their own index, readings of one operator share an index. -/
theorem index_unique {a b : Round}
    (ha : ∀ index : Fin 3, (a.sources.get index).operator.toNat = index.val + 1)
    (hb : ∀ index : Fin 3, (b.sources.get index).operator.toNat = index.val + 1) {i j : Fin 3}
    {x y : UInt64 × Measurement} (hx : (a.sources.get i).reading = some x)
    (hy : (b.sources.get j).reading = some y) (h : x.2.operator = y.2.operator) : i = j := by
  have hi := ha i
  have hj := hb j
  rw [operator_of_reading hx] at hi
  rw [operator_of_reading hy, ← h] at hj
  exact Fin.ext (by omega)

theorem nextSamples_getElem (k : Keeper) (round : Round) (index : Fin 3) :
    (k.nextSamples round).get index =
      (round.sources.get index).reading.or (k.lastSamples.get index) :=
  Vector.getElem_ofFn index.isLt

/-- A round taken: it follows all rounds before it, and becomes what is known. -/
theorem Known.take (h : Known past k) {round : Round} {now : Clock} (haccepts : k.Accepts round now)
    {e : Entry} (haccepted : accepted e = some round)
    (hlatest : latestReacquire (past ++ [e]) = latestReacquire past)
    (estimate : Option Interval) (state : State) :
    Known (past ++ [e]) (k.take round now estimate state) := by
  have hrounds : acceptedRounds (past ++ [e]) = acceptedRounds past ++ [round] := by
    rw [acceptedRounds_append, haccepted, Option.toList_some]
  -- a reading of an earlier round is followed by the last one known, and that by the new one
  have hfollows : ∀ r ∈ acceptedRounds past, ∀ (index : Fin 3) x y,
      (r.sources.get index).reading = some x → (round.sources.get index).reading = some y →
      Follows x y := by
    intro r hr index x y hx hy
    obtain ⟨known, hknown, hxk⟩ := h.last r hr index x hx
    exact hxk.trans (((haccepts.sources index).2 y hy).2 known hknown)
  have hops : ∀ index : Fin 3, (round.sources.get index).operator.toNat = index.val + 1 :=
    fun index => (haccepts.sources index).1
  refine ⟨?_, ?_, ?_, ?_, fun _ => ?_, ?_⟩
  · rw [hrounds, List.pairwise_append]
    refine ⟨h.rounds, List.pairwise_singleton _ _, fun r hr later hlater => ?_⟩
    obtain rfl := List.mem_singleton.mp hlater
    refine ⟨UInt64.lt_of_le_of_lt (h.sequence r hr) haccepts.fresh, fun x hx y hy hop => ?_⟩
    obtain ⟨i, hi⟩ := mem_readings hx
    obtain ⟨j, hj⟩ := mem_readings hy
    obtain rfl := index_unique (h.operators r hr) hops hi hj hop
    exact hfollows r hr i x y hi hj
  · intro r hr
    rw [hrounds] at hr
    rcases List.mem_append.mp hr with hr | hr
    · exact UInt64.le_of_lt (UInt64.lt_of_le_of_lt (h.sequence r hr) haccepts.fresh)
    · obtain rfl := List.mem_singleton.mp hr
      exact UInt64.le_refl _
  · intro r hr
    rw [hrounds] at hr
    rcases List.mem_append.mp hr with hr | hr
    · exact h.operators r hr
    · obtain rfl := List.mem_singleton.mp hr
      exact hops
  · intro r hr index x hx
    rw [hrounds] at hr
    simp only [Keeper.take, nextSamples_getElem]
    rcases List.mem_append.mp hr with hr | hr
    · cases hy : (round.sources.get index).reading with
      | none =>
        rw [Option.none_or]
        exact h.last r hr index x hx
      | some y => exact ⟨y, Option.some_or, hfollows r hr index x y hx hy⟩
    · obtain rfl := List.mem_singleton.mp hr
      rw [hx]
      exact ⟨x, Option.some_or, Follows.refl x⟩
  · rw [hlatest]
    exact h.barrier haccepts.live
  · rintro _ ⟨⟩
    refine ⟨⟨round, ?_, rfl⟩, fun sample hs => ?_⟩
    · rw [hrounds, List.getLast?_concat]
    · obtain ⟨index, sequence, hreading⟩ := mem_samplesOf hs
      exact ((haccepts.sources index).2 _ hreading).1

theorem accepted_of_error {e : Entry} {stop : Stop} (h : e.result = .error stop) :
    accepted e = none := by
  unfold accepted
  rw [h]
  cases e.op.round? <;> rfl

theorem round?_ne_reacquire {x : Round × Clock} (h : op.round? = some x) (clock : Clock) :
    op ≠ .reacquire clock := by
  rintro rfl
  cases h

/-- **One call keeps what is known.** -/
theorem Step.known (h : Step k op result k') (hk : Known past k) :
    Known (past ++ [⟨k, op, result, k'⟩]) k' := by
  cases h with
  | refused _ message state hstate =>
    refine ⟨?_, ?_, ?_, ?_, fun hlive => ?_, fun _ hs => (by cases hs)⟩
    all_goals try rw [acceptedRounds_append, accepted_of_error rfl, Option.toList_none,
      List.append_nil]
    · exact hk.rounds
    · exact hk.sequence
    · exact hk.operators
    · exact hk.last
    · simp only [Keeper.close] at hlive
      rcases hstate with rfl | rfl <;> rcases hlive with h | h <;> cases h
  | fence =>
    refine hk.keep rfl (latestReacquire_append _ fun _ h => (by cases h)) (fun hlive => ?_) rfl rfl
      rfl fun _ hs => (by cases hs)
    simp only [Keeper.fence] at hlive
    split at hlive <;> rcases hlive with h | h <;> cases h
  | checked =>
    exact hk.keep rfl (latestReacquire_append _ fun _ h => (by cases h)) id rfl rfl rfl
      fun _ hs => hs
  | reacquired clock clockGeneration hstate hlater hgeneration =>
    refine ⟨?_, ?_, ?_, ?_, fun _ => ⟨clock, latestReacquire_reacquire .., rfl⟩,
      fun _ hs => (by cases hs)⟩
    all_goals rw [acceptedRounds_append, show accepted _ = none from rfl,
      Option.toList_none, List.append_nil]
    · exact hk.rounds
    · exact hk.sequence
    · exact hk.operators
    · exact hk.last
  | gathered _ round now hop haccepts hstate =>
    refine hk.take haccepts ?_ (latestReacquire_append _ (round?_ne_reacquire hop)) none .acquiring
    simp only [accepted, hop]
  | bounded _ round now i hop haccepts hestimates =>
    refine hk.take haccepts ?_ (latestReacquire_append _ (round?_ne_reacquire hop)) (some i)
      .bounded
    simp only [accepted, hop]
  | renewed now sources i hstate hlater hsources hestimates =>
    exact hk.keep rfl (latestReacquire_append _ fun _ h => (by cases h)) id rfl rfl rfl
      fun _ hs => hs

/-- A keeper that estimates from the sources of the latest round explains its interval. -/
theorem Known.explains (h : Known past k) {e : Entry} {round : Round} {now : Clock}
    {i : Interval} (hlive : k.state = .acquiring ∨ k.state = .bounded)
    (hround : (acceptedRounds (past ++ [e])).getLast? = some round)
    (hbarrier : ∀ s ∈ samplesOf round.sources, k.barrierMs ≤ s.observedBoottimeMs)
    (hestimates : k.Estimates round.sources now i) (hclock : e.after.lastClock = some now)
    (hepoch : e.after.epoch = k.epoch) (hpolicy : e.after.policy = k.policy)
    (hfloor : e.after.floorMs = k.floorMs) : Explains e past i := by
  obtain ⟨clock, hlatest, hclockBarrier⟩ := h.barrier hlive
  obtain ⟨candidate, hcandidate, rfl⟩ := hestimates
  have hagreed := consensus_eq_ok.mp hcandidate
  refine ⟨round, clock, now, candidate, hround, hlatest, hclock, ?_, ?_, fun s hs => ⟨?_, ?_⟩⟩
  · rw [hepoch, hpolicy]
    exact hcandidate
  · rw [hfloor]
  · rw [hepoch]
    exact (project_eq_ok (hagreed.projected s hs)).1
  · rw [hclockBarrier]
    exact hbarrier s hs

/-- **An interval is returned from a bounded keeper, above the floor, and explained.** -/
theorem Step.interval (h : Step k op result k') (hk : Known past k) {i : Interval}
    (hr : result = .ok (some i)) :
    k'.state = .bounded ∧ k'.floorMs ≤ i.lowerMs ∧
      Explains ⟨k, op, result, k'⟩ past i := by
  subst hr
  have hfloor : ∀ {sources : Vector Source 3} {now : Clock}, k.Estimates sources now i →
      k.floorMs ≤ i.lowerMs := by
    rintro _ _ ⟨candidate, -, rfl⟩
    exact Int.le_max_right _ _
  cases h with
  | bounded _ round now i hop haccepts hestimates =>
    refine ⟨rfl, hfloor hestimates, hk.explains haccepts.live ?_ (fun s hs => ?_) hestimates rfl
      rfl rfl rfl⟩
    · rw [acceptedRounds_append, accepted, hop, Option.toList_some, List.getLast?_concat]
    · obtain ⟨index, sequence, hreading⟩ := mem_samplesOf hs
      exact ((haccepts.sources index).2 _ hreading).1
  | renewed now sources i hstate hlater hsources hestimates =>
    obtain ⟨⟨round, hround, rfl⟩, hbarrier⟩ := hk.current sources hsources
    refine ⟨hstate, hfloor hestimates, hk.explains (.inr hstate) ?_ hbarrier hestimates rfl rfl rfl
      rfl⟩
    rw [acceptedRounds_append, show accepted _ = none from rfl, Option.toList_none,
      List.append_nil, hround]

end Steps

/-! ## Whole runs -/

theorem known_new {fixed : Result ApprovedPolicy} {bootId : Vector UInt8 16}
    {providerGeneration : UInt64} {floorMs : Int} {k : Keeper}
    (h : Keeper.new fixed bootId providerGeneration floorMs = .ok k) : Known [] k := by
  simp only [Keeper.new, bind_eq_ok, pure_eq_ok] at h
  obtain ⟨_, -, policy, -, rfl⟩ := h
  have hnone : ∀ round, round ∉ acceptedRounds [] := fun _ => List.not_mem_nil
  refine ⟨.nil, fun _ h => absurd h (hnone _), fun _ h => absurd h (hnone _),
    fun _ h => absurd h (hnone _), fun hlive => ?_, fun _ hs => (by cases hs)⟩
  rcases hlive with hlive | hlive <;> cases hlive

/-- **The keeper's lifecycle over whole runs.** In every run of a new keeper: an interval comes
only from a bounded keeper, above the floor and from samples of the current epoch since the latest
`reacquire`; an error leaves no estimate, fenced or to be reconciled; a keeper to be reconciled
stays so, and a fenced one leaves only by a `reacquire` into a greater generation; the rounds taken,
and the readings of each operator in them, never go back; nor does the last clock. -/
theorem keeper_lifecycle (fixed : Result ApprovedPolicy) (bootId : Vector UInt8 16)
    (providerGeneration : UInt64) (floorMs : Int) (k : Keeper)
    (hnew : Keeper.new fixed bootId providerGeneration floorMs = .ok k) (ops : List Op) :
    (∀ past e rest, trace k ops = past ++ e :: rest →
      (∀ i, e.result = .ok (some i) → e.after.state = .bounded ∧ e.after.floorMs ≤ i.lowerMs ∧
        Explains e past i) ∧
      (∀ stop, e.result = .error stop → e.after.estimate = none ∧
        (e.after.state = .fenced ∨ e.after.state = .reconciliationRequired)) ∧
      (e.before.state = .reconciliationRequired → e.after.state = .reconciliationRequired) ∧
      (e.before.state = .fenced → e.after.state ≠ .fenced → ∃ clock, e.op = .reacquire clock ∧
        e.before.epoch.clockGeneration < e.after.epoch.clockGeneration)) ∧
    (acceptedRounds (trace k ops)).Pairwise Round.Precedes ∧
    (k :: (trace k ops).map Entry.after).Pairwise ClocksGrow := by
  have hknown := known_new hnew
  refine ⟨fun past e rest he => ?_, ?_, ?_⟩
  · obtain ⟨hpast, hstep, -⟩ := trace_rule (T := Step)
      (fun _ _ op hk => ⟨call_step op, (call_step op).known hk⟩) ops [] hknown past e rest he
    exact ⟨fun i hi => hstep.interval hpast hi, fun stop hs => hstep.error_closes hs,
      hstep.reconciliation_kept, hstep.unfenced⟩
  · obtain ⟨_, hwhole⟩ := trace_whole (fun _ _ op hk => (call_step op).known hk) ops hknown
    exact hwhole.rounds
  · refine trace_chain (I := fun _ => True) (R := ClocksGrow) (fun _ _ _ => ClocksGrow.trans)
      (fun k op _ => ?_) ops trivial
    exact (call_step op).mono fun _ _ hstep => ⟨hstep.clocksGrow, trivial⟩

/-- A keeper as `new` makes it. -/
def Keeper.sample : Keeper where
  policy := ⟨Vector.replicate 32 1⟩
  epoch := ⟨Vector.replicate 16 1, 1, 1, Vector.replicate 32 1⟩
  state := .uninitialized
  floorMs := 1000020
  lastClock := none
  barrierMs := 0
  lastRound := 0
  lastSamples := Vector.replicate 3 none
  currentSources := none
  estimate := none

/-- A round of two measured sources. -/
def Round.sample : Round where
  epoch := Keeper.sample.epoch
  sequence := 1
  capturedBoottimeMs := 20
  sources := #v[.measured 1 ⟨1, ⟨1000000, 1000050⟩, 20, Keeper.sample.epoch⟩ true, .unavailable 2,
    .measured 1 ⟨3, ⟨1000010, 1000060⟩, 20, Keeper.sample.epoch⟩ true]

/-- An estimate cut at the floor, and the fence after it. -/
theorem keeper_lifecycle_sample :
    (trace Keeper.sample [.reacquire ⟨10, 10, 10, 0⟩, .refresh Round.sample ⟨20, 20, 20, 0⟩,
      .candidateAt ⟨19, 19, 19, 0⟩]).map (fun e => (e.result, e.after.state)) =
        [(.ok none, .acquiring), (.ok (some ⟨1000020, 1000060⟩), .bounded),
          (.error (.refused "UTC boot clock regressed"), .fenced)] ∧
    (acceptedRounds (trace Keeper.sample [.reacquire ⟨10, 10, 10, 0⟩,
      .refresh Round.sample ⟨20, 20, 20, 0⟩, .candidateAt ⟨19, 19, 19, 0⟩])).Pairwise
        Round.Precedes :=
  ⟨by decide +kernel, (keeper_lifecycle (.ok ⟨Vector.replicate 32 1⟩) (Vector.replicate 16 1) 1
    1000020 Keeper.sample rfl _).2.1⟩

end LumaOS.Utc
