import LumaOS.Utc.Receiver

/-!
# Batches of UTC rounds

Model of `BatchKeeper` (`utc_stream.rs:97-208`): the queued rounds of a poll go through the keeper in
order, each at its own capture clock, and then the candidate is asked for at the live clock. What
`ApprovedPolicy::fixed()` returned is an argument of `new`.

* `Rests`: a keeper that has just taken a round answers a question at the same clock without a
  change.
* **`refresh_append`**: a batch may be cut anywhere.
-/

namespace LumaOS.Utc

open LumaOS.Base LumaOS.Governance
open Receiver (ProducerEpoch ProducerRound SourceData)

/-- `utc_receiver::DRAIN_LIMIT`. -/
def drainLimit : Nat := 8

/-- `BatchKeeper`. -/
structure BatchKeeper where
  producer : ProducerEpoch
  keeper : Keeper
  lastCaptureMs : Option UInt64

namespace BatchKeeper

/-- `BatchKeeper::new`; `fixed` is what `ApprovedPolicy::fixed()` returned. -/
def new (fixed : Result ApprovedPolicy) (producer : ProducerEpoch) (historyFloorMs : Int)
    (initial : Clock) : Result BatchKeeper := do
  let policy ← fixed
  refuseIf (producer.policyDigest != policy.digest || producer.sourceClockGeneration == 0)
    "invalid UTC producer mapping"
  let keeper ← Keeper.new fixed producer.bootId producer.processGeneration historyFloorMs
  match (Keeper.reacquire initial).exec keeper with
  | (.error e, _) => .error e
  | (.ok _, keeper) => pure { producer, keeper, lastCaptureMs := none }

/-- A call of the keeper. -/
def onKeeper {α : Type} : Mut Keeper α → Mut BatchKeeper α :=
  Mut.focus BatchKeeper.keeper fun keeper b => { b with keeper }

/-- `self.keeper.fence()`. -/
def fence (b : BatchKeeper) : BatchKeeper := { b with keeper := b.keeper.fence }

/-- The `map` over the sources of a round. -/
def sourceOf (epoch : Epoch) : SourceData → Source
  | .unavailable operator => .unavailable operator
  | .measured operator sequence observedBoottimeMs utc =>
    .measured sequence { operator, utc, observedBoottimeMs, epoch } true

/-- The `round` of the loop. -/
def roundOf (epoch : Epoch) (producer : ProducerRound) : Round where
  epoch
  sequence := producer.sequence
  capturedBoottimeMs := producer.capturedBoottimeMs
  sources := producer.sources.map (sourceOf epoch)

/-- The `captured` of the loop. -/
def captured (producer : ProducerRound) (suspendGeneration : UInt64) : Clock where
  boottimeMs := producer.capturedBoottimeMs
  monotonicMs := producer.capturedMonotonicMs
  realtimeMs := producer.capturedRealtimeMs
  suspendGeneration

/-- The body of the loop of `refresh_inner`. -/
def roundStep (suspendGeneration : UInt64) (producer : ProducerRound) : Mut BatchKeeper Unit := do
  let b ← get
  refuseIf (producer.epoch != b.producer) "UTC producer changed during acquisition"
  let round := roundOf b.keeper.epoch producer
  let clock := captured producer suspendGeneration
  if b.keeper.state = .acquiring then do
    let _ ← onKeeper (Keeper.acquireRound round clock)
  else do
    let _ ← onKeeper (Keeper.refresh round clock)
  modify fun b => { b with lastCaptureMs := some producer.capturedBoottimeMs }

/-- `BatchKeeper::candidate_at`. -/
def candidateAt (now : Clock) : Mut BatchKeeper (Option Interval) := do
  let b ← get
  match b.lastCaptureMs with
  | none => do
    refuseIf (b.keeper.state != .acquiring) "UTC stream has no active acquisition"
    onKeeper (Keeper.checkBoundary now)
    pure none
  | some capture => do
    let age ← okOr ((u64Sub now.boottimeMs capture).filter fun age => age ≤ 999)
      "UTC producer heartbeat is missing or future-dated"
    refuseIf (age.toNat + divCeil (age.toNat * 100) 999900 > 1000)
      "UTC heartbeat may exceed its real-age deadline"
    if b.keeper.state = .acquiring then do
      onKeeper (Keeper.checkBoundary now)
      pure none
    else do
      let candidate ← onKeeper (Keeper.candidateAt now)
      pure (some candidate)

/-- `BatchKeeper::refresh_inner`. -/
def refreshInner (rounds : List ProducerRound) (now : Clock) : Mut BatchKeeper (Option Interval) := do
  let b ← get
  refuseIf (!(b.keeper.state == .acquiring || b.keeper.state == .bounded))
    "UTC stream requires reviewed reconstruction"
  refuseIf (rounds.length > drainLimit) "UTC stream batch exceeded bound"
  rounds.forM (roundStep now.suspendGeneration)
  candidateAt now

/-- `BatchKeeper::refresh`. -/
def refresh (rounds : List ProducerRound) (now : Clock) : Mut BatchKeeper (Option Interval) :=
  Mut.onError fence (refreshInner rounds now)

end BatchKeeper

/-! ## A keeper at rest -/

variable {k k' : Keeper} {now : Clock}

/-- The keeper has taken a round at the clock: it is acquiring, or its estimate is the one that its
sources give at the clock. -/
structure Keeper.Rests (k : Keeper) (now : Clock) : Prop where
  clock : k.lastClock = some now
  valid : Keeper.validateClock now = .ok ()
  live : k.state = .acquiring ∨ (k.state = .bounded ∧ ∃ sources candidate i,
    k.currentSources = some sources ∧
    consensus (samplesOf sources) now.boottimeMs k.epoch k.policy.bounds = .ok candidate ∧
    ¬candidate.upperMs < k.floorMs ∧
    Interval.new (max candidate.lowerMs k.floorMs) candidate.upperMs = .ok i ∧ k.estimate = some i)

/-- No time has passed. -/
theorem Keeper.Rests.checkClock (h : k.Rests now) : k.checkClock now = .ok () := by
  have hzero : ∀ x : UInt64, u64Sub x x = some 0 := fun x =>
    u64Sub_eq_some.mpr ⟨UInt64.le_refl x, (UInt64.sub_self x).symm⟩
  unfold Keeper.checkClock
  rw [h.valid, h.clock]
  simp [okOr, hzero, refuseIf, bind, Except.bind, divCeil]

section Fenced

variable {α : Type} {m : Mut Keeper α} {a : α}

theorem exec_fenced_eq_ok : (Keeper.fenced m).exec k = (.ok a, k') ↔ m.exec k = (.ok a, k') := by
  unfold Keeper.fenced
  rw [Mut.exec, ExceptT.run_mk, StateT.run]
  rcases m.exec k with ⟨(message | message) | b, t⟩ <;> simp

end Fenced

theorem Keeper.Rests.checkBoundary (h : k.Rests now) :
    (Keeper.checkBoundary now).exec k = (.ok (), k) := by
  refine exec_fenced_eq_ok.mpr ?_
  rw [Mut.exec_bind_get, Mut.exec_lift, h.checkClock]

/-- **A question at the same clock changes nothing.** -/
theorem Keeper.Rests.candidateAt (h : k.Rests now) (hstate : k.state ≠ .acquiring) :
    ∃ i, (Keeper.candidateAt now).exec k = (.ok i, k) := by
  obtain hacquiring | ⟨hbounded, sources, candidate, i, hsources, hcandidate, hfloor, hi, hestimate⟩ :=
    h.live
  · exact absurd hacquiring hstate
  have hsame : { k with lastClock := some now, estimate := some i } = k := by
    rw [← h.clock, ← hestimate]
  refine ⟨i, exec_fenced_eq_ok.mpr ?_⟩
  rw [Mut.exec_bind_get, Mut.exec_bind_lift_eq_ok]
  refine ⟨(), by rw [hbounded]; rfl, ?_⟩
  rw [Mut.exec_bind_lift_eq_ok]
  refine ⟨(), h.checkClock, ?_⟩
  rw [Mut.exec_bind_lift_eq_ok]
  refine ⟨sources, okOr_eq_ok.mpr hsources, ?_⟩
  rw [Mut.exec_bind_lift_eq_ok]
  refine ⟨candidate, hcandidate, ?_⟩
  rw [if_neg hfloor, Mut.exec_bind_lift_eq_ok]
  refine ⟨i, hi, ?_⟩
  rw [Mut.exec_bind_set, hsame]
  rfl

/-! ## One round -/

/-- The round cannot keep a bounded keeper going: fewer than two measured sources, or no consensus
among them. -/
def Keeper.Poor (k : Keeper) (producer : ProducerRound) : Prop :=
  (samplesOf (producer.sources.map (BatchKeeper.sourceOf k.epoch))).length < 2 ∨
    ∀ i, consensus (samplesOf (producer.sources.map (BatchKeeper.sourceOf k.epoch)))
      producer.capturedBoottimeMs k.epoch k.policy.bounds ≠ .ok i

variable {round : Round}

theorem checkRound_clock {u : Unit} (h : k.checkRound round now = .ok u) :
    Keeper.validateClock now = .ok () := by
  simp only [Keeper.checkRound, Keeper.checkClock, bind_eq_ok] at h
  obtain ⟨_, -, _, ⟨_, hvalid, -⟩, -⟩ := h
  exact hvalid

/-- What a round that was taken leaves. -/
structure Taken (k : Keeper) (round : Round) (now : Clock) (k' : Keeper) : Prop where
  rests : k'.Rests now
  epoch : k'.epoch = k.epoch
  policy : k'.policy = k.policy
  bounded : k.state = .bounded → k'.state = .bounded ∧ ∃ i,
    consensus (samplesOf round.sources) now.boottimeMs k.epoch k.policy.bounds = .ok i

theorem taken_of_refreshInner {acquiring : Bool} {r : Option Interval}
    (h : (Keeper.refreshInner round now acquiring).exec k = (.ok r, k')) : Taken k round now k' := by
  rw [Keeper.refreshInner, Mut.exec_bind_get, Mut.exec_bind_lift_eq_ok] at h
  obtain ⟨_, hround, h⟩ := h
  rw [Mut.exec_bind_lift_eq_ok] at h
  obtain ⟨acc, hsources, h⟩ := h
  obtain ⟨-, rfl⟩ := readSources_eq_ok hsources
  have hvalid := checkRound_clock hround
  dsimp only at h
  split at h
  · rename_i hgather
    simp only [Bool.and_eq_true, beq_iff_eq, decide_eq_true_eq] at hgather
    rw [Mut.exec_bind_lift_eq_ok] at h
    obtain ⟨_, -, h⟩ := h
    rw [Mut.exec_bind_set] at h
    cases h
    refine ⟨⟨rfl, hvalid, .inl hgather.1.2⟩, rfl, rfl, fun hbounded => ?_⟩
    rw [hgather.1.2] at hbounded
    cases hbounded
  · rw [Mut.exec_bind_lift_eq_ok] at h
    obtain ⟨candidate, hcandidate, h⟩ := h
    split at h
    · rw [Mut.exec_bind_set, Mut.exec_bind_lift_eq_ok] at h
      obtain ⟨_, hrefuse, -⟩ := h
      exact absurd hrefuse refuse_ne_ok
    · rename_i hfloor
      rw [Mut.exec_bind_lift_eq_ok] at h
      obtain ⟨i, hi, h⟩ := h
      rw [Mut.exec_bind_set] at h
      cases h
      exact ⟨⟨rfl, hvalid, .inr ⟨rfl, _, candidate, i, rfl, hcandidate, hfloor, hi, rfl⟩⟩, rfl, rfl,
        fun _ => ⟨rfl, candidate, hcandidate⟩⟩

theorem taken_of_refresh {i : Interval} (h : (Keeper.refresh round now).exec k = (.ok i, k')) :
    Taken k round now k' := by
  rw [Keeper.refresh, exec_fenced_eq_ok, Mut.exec_bind_eq_ok] at h
  obtain ⟨r, t, hinner, h⟩ := h
  obtain ⟨-, rfl⟩ : _ ∧ t = k' := Prod.mk.inj h
  exact taken_of_refreshInner hinner

theorem taken_of_acquireRound {r : Option Interval}
    (h : (Keeper.acquireRound round now).exec k = (.ok r, k')) : Taken k round now k' := by
  rw [Keeper.acquireRound, exec_fenced_eq_ok, Mut.exec_bind_get] at h
  split at h
  · exact taken_of_refreshInner h
  · rw [Mut.exec_lift] at h
    exact absurd (Prod.mk.inj h).1 refuse_ne_ok

namespace BatchKeeper

variable {b b' : BatchKeeper} {producer : ProducerRound} {rounds : List ProducerRound}
  {suspendGeneration : UInt64}

/-- The keeper may still take rounds. -/
def Live (b : BatchKeeper) : Prop := b.keeper.state = .acquiring ∨ b.keeper.state = .bounded

theorem exec_onKeeper {α : Type} (m : Mut Keeper α) (b : BatchKeeper) :
    (onKeeper m).exec b = ((m.exec b.keeper).1, { b with keeper := (m.exec b.keeper).2 }) := rfl

/-- What one turn of the loop leaves. -/
structure Advanced (b : BatchKeeper) (producer : ProducerRound) (suspendGeneration : UInt64)
    (b' : BatchKeeper) : Prop where
  rests : b'.keeper.Rests (captured producer suspendGeneration)
  epoch : b'.keeper.epoch = b.keeper.epoch
  policy : b'.keeper.policy = b.keeper.policy
  capture : b'.lastCaptureMs = some producer.capturedBoottimeMs
  bounded : b.keeper.state = .bounded → b'.keeper.state = .bounded ∧ ¬b.keeper.Poor producer

/-- Fewer than two samples have no consensus. -/
theorem not_poor_of_consensus {k : Keeper} {i : Interval}
    (h : consensus (samplesOf (producer.sources.map (sourceOf k.epoch))) producer.capturedBoottimeMs
      k.epoch k.policy.bounds = .ok i) : ¬k.Poor producer := by
  rintro (hshort | hnone)
  · have := (consensus_eq_ok.mp h).number
    omega
  · exact hnone i h

theorem onKeeper_eq_ok {α : Type} {m : Mut Keeper α} {a : α}
    (h : (onKeeper m).exec b = (.ok a, b')) :
    ∃ k', m.exec b.keeper = (.ok a, k') ∧ b' = { b with keeper := k' } := by
  rw [exec_onKeeper] at h
  obtain ⟨hresult, rfl⟩ := Prod.mk.inj h
  exact ⟨_, Prod.ext hresult rfl, rfl⟩

theorem advanced_of_roundStep (h : (roundStep suspendGeneration producer).exec b = (.ok (), b')) :
    Advanced b producer suspendGeneration b' := by
  have htaken : ∀ {k' : Keeper}, Taken b.keeper (roundOf b.keeper.epoch producer)
      (captured producer suspendGeneration) k' →
        Advanced b producer suspendGeneration
          { b with keeper := k', lastCaptureMs := some producer.capturedBoottimeMs } :=
    fun ht => ⟨ht.rests, ht.epoch, ht.policy, rfl, fun hbounded => by
      obtain ⟨hstate, i, hi⟩ := ht.bounded hbounded
      exact ⟨hstate, not_poor_of_consensus hi⟩⟩
  rw [roundStep, Mut.exec_bind_get, Mut.exec_bind_lift_eq_ok] at h
  obtain ⟨_, -, h⟩ := h
  dsimp only at h
  split at h
  · rw [Mut.exec_bind_eq_ok] at h
    obtain ⟨_, t, hcall, h⟩ := h
    obtain ⟨k', hk, rfl⟩ := onKeeper_eq_ok hcall
    cases h
    exact htaken (taken_of_acquireRound hk)
  · rw [Mut.exec_bind_eq_ok] at h
    obtain ⟨_, t, hcall, h⟩ := h
    obtain ⟨k', hk, rfl⟩ := onKeeper_eq_ok hcall
    cases h
    exact htaken (taken_of_refresh hk)

/-! ## The loop -/

/-- The loop over the rounds of a batch. -/
def roundLoop (suspendGeneration : UInt64) (rounds : List ProducerRound) : Mut BatchKeeper Unit :=
  rounds.forM (roundStep suspendGeneration)

theorem roundLoop_cons : roundLoop suspendGeneration (producer :: rounds) =
    roundStep suspendGeneration producer >>= fun _ => roundLoop suspendGeneration rounds := rfl

theorem roundLoop_append (xs ys : List ProducerRound) :
    roundLoop suspendGeneration (xs ++ ys) =
      roundLoop suspendGeneration xs >>= fun _ => roundLoop suspendGeneration ys := by
  induction xs with
  | nil => rfl
  | cons x xs ih =>
    rw [List.cons_append, roundLoop_cons, roundLoop_cons, ih, bind_assoc]

/-- What the whole loop keeps, and what it says of a keeper that was bounded before it. -/
theorem roundLoop_kept : ∀ {rounds : List ProducerRound} {b : BatchKeeper},
    (roundLoop suspendGeneration rounds).exec b = (.ok (), b') →
      b'.keeper.epoch = b.keeper.epoch ∧ b'.keeper.policy = b.keeper.policy ∧
        (b.keeper.state = .bounded → b'.keeper.state = .bounded ∧
          ∀ producer ∈ rounds, ¬b.keeper.Poor producer)
  | [], b, h => by
    cases h
    exact ⟨rfl, rfl, fun hstate => ⟨hstate, fun _ hx => absurd hx List.not_mem_nil⟩⟩
  | producer :: rounds, b, h => by
    rw [roundLoop_cons, Mut.exec_bind_eq_ok] at h
    obtain ⟨_, t, hone, hrest⟩ := h
    have hstep := advanced_of_roundStep hone
    obtain ⟨hepoch, hpolicy, hbounded⟩ := roundLoop_kept hrest
    refine ⟨hepoch.trans hstep.epoch, hpolicy.trans hstep.policy, fun hstate => ?_⟩
    obtain ⟨hnext, hgood⟩ := hstep.bounded hstate
    refine ⟨(hbounded hnext).1, List.forall_mem_cons.mpr ⟨hgood, fun x hx hpoor => ?_⟩⟩
    refine (hbounded hnext).2 x hx ?_
    unfold Keeper.Poor
    rwa [hstep.epoch, hstep.policy]

/-- After a loop over some rounds, the keeper rests at the capture clock of the last one. -/
theorem roundLoop_rests {rounds : List ProducerRound} {b : BatchKeeper} (hne : rounds ≠ [])
    (h : (roundLoop suspendGeneration rounds).exec b = (.ok (), b')) :
    b'.keeper.Rests (captured (rounds.getLast hne) suspendGeneration) ∧
      b'.lastCaptureMs = some (rounds.getLast hne).capturedBoottimeMs := by
  induction rounds generalizing b with
  | nil => exact absurd rfl hne
  | cons producer rounds ih =>
    rw [roundLoop_cons, Mut.exec_bind_eq_ok] at h
    obtain ⟨_, t, hone, hrest⟩ := h
    cases rounds with
    | nil =>
      cases hrest
      have hstep := advanced_of_roundStep hone
      exact ⟨hstep.rests, hstep.capture⟩
    | cons second rounds => exact ih (List.cons_ne_nil _ _) hrest

/-- **A candidate asked for at the clock of the last round changes nothing.** -/
theorem exec_candidateAt_rests {now : Clock} (h : b.keeper.Rests now)
    (hcapture : b.lastCaptureMs = some now.boottimeMs) :
    ∃ v, (candidateAt now).exec b = (.ok v, b) := by
  have hage : (u64Sub now.boottimeMs now.boottimeMs).filter (fun age => age ≤ 999) = some 0 := by
    rw [u64Sub_eq_some.mpr ⟨UInt64.le_refl _, (UInt64.sub_self _).symm⟩]
    rfl
  by_cases hstate : b.keeper.state = .acquiring
  · refine ⟨none, ?_⟩
    rw [candidateAt, Mut.exec_bind_get, hcapture]
    dsimp only
    rw [hage, Mut.exec_bind_lift_eq_ok]
    refine ⟨0, rfl, Mut.exec_bind_lift_eq_ok.mpr ⟨(), refuseIf_eq_ok.mpr (by decide), ?_⟩⟩
    rw [if_pos hstate, Mut.exec_bind_eq_ok]
    refine ⟨(), b, ?_, rfl⟩
    rw [exec_onKeeper, h.checkBoundary]
  · obtain ⟨i, hi⟩ := h.candidateAt hstate
    refine ⟨some i, ?_⟩
    rw [candidateAt, Mut.exec_bind_get, hcapture]
    dsimp only
    rw [hage, Mut.exec_bind_lift_eq_ok]
    refine ⟨0, rfl, Mut.exec_bind_lift_eq_ok.mpr ⟨(), refuseIf_eq_ok.mpr (by decide), ?_⟩⟩
    rw [if_neg hstate, Mut.exec_bind_eq_ok]
    refine ⟨i, b, ?_, rfl⟩
    rw [exec_onKeeper, hi]

/-! ## Whole batches -/

theorem fence_fence : b.fence.fence = b.fence := by
  unfold fence Keeper.fence
  dsimp only
  split
  · rfl
  · simp

theorem not_live_fence : ¬b.fence.Live := by
  unfold Live fence Keeper.fence
  dsimp only
  split
  · simp
  · simp

theorem exec_refresh_of_error {now : Clock} {e : Stop}
    (h : (refreshInner rounds now).exec b = (.error e, b')) :
    (refresh rounds now).exec b = (.error e, b'.fence) := by
  refine Mut.yields_onError (T := fun r s => (r, s) = (.error e, b'.fence)) (fun v s hok => ?_)
    fun e' s herror => ?_
  · rw [h] at hok
    cases hok
  · rw [h] at herror
    cases herror
    rfl

theorem exec_refresh_of_ok {now : Clock} {v : Option Interval}
    (h : (refreshInner rounds now).exec b = (.ok v, b')) :
    (refresh rounds now).exec b = (.ok v, b') :=
  Mut.exec_onError_eq_ok.mpr h

/-- Two batches that go the same way give the same. -/
theorem exec_refresh_congr {xs ys : List ProducerRound} {now : Clock}
    (h : (refreshInner xs now).exec b = (refreshInner ys now).exec b') :
    (refresh xs now).exec b = (refresh ys now).exec b' := by
  rcases hy : (refreshInner ys now).exec b' with ⟨e | v, t⟩
  · rw [exec_refresh_of_error hy, exec_refresh_of_error (h.trans hy)]
  · rw [exec_refresh_of_ok hy, exec_refresh_of_ok (h.trans hy)]

/-- The refusal of a keeper that is not live. -/
def reconstruct : Stop := .refused "UTC stream requires reviewed reconstruction"

theorem exec_refresh_not_live {now : Clock} (h : ¬b.Live) :
    (refresh rounds now).exec b = (.error reconstruct, b.fence) := by
  have hcheck : (!(b.keeper.state == .acquiring || b.keeper.state == .bounded)) = true := by
    unfold Live at h
    simpa using h
  refine exec_refresh_of_error ?_
  rw [refreshInner, Mut.exec_bind_get, hcheck]
  rfl

/-- A live keeper goes through the rounds and answers. -/
theorem exec_refreshInner_live {now : Clock} (h : b.Live) (hlen : rounds.length ≤ drainLimit) :
    (refreshInner rounds now).exec b =
      (roundLoop now.suspendGeneration rounds >>= fun _ => candidateAt now).exec b := by
  have hcheck : (!(b.keeper.state == .acquiring || b.keeper.state == .bounded)) = false := by
    rcases h with h | h
    · rw [h]
      rfl
    · rw [h]
      rfl
  have hbound : decide (rounds.length > drainLimit) = false := decide_eq_false (by omega)
  rw [refreshInner, Mut.exec_bind_get, hcheck, hbound]
  rfl

theorem Live.of_rests {now : Clock} (h : b.keeper.Rests now) : b.Live :=
  h.live.imp id And.left

/-- **A batch may be cut anywhere**: `first` and `second` are the calls for its two parts. -/
theorem refresh_append {xs ys : List ProducerRound} {now : Clock} (hne : xs ≠ [])
    (hlen : (xs ++ ys).length ≤ drainLimit) (b : BatchKeeper) :
    (∃ v t, (refresh xs (captured (xs.getLast hne) now.suspendGeneration)).exec b = (.ok v, t) ∧
        (refresh (xs ++ ys) now).exec b = (refresh ys now).exec t) ∨
      ∃ e t, (refresh xs (captured (xs.getLast hne) now.suspendGeneration)).exec b = (.error e, t) ∧
        (refresh (xs ++ ys) now).exec b = (.error e, t) ∧
        ∃ e', (refresh ys now).exec t = (.error e', t) := by
  rw [List.length_append] at hlen
  by_cases hlive : b.Live
  · rcases hloop : (roundLoop now.suspendGeneration xs).exec b with ⟨e | _, t⟩
    · -- the loop breaks off within the first part
      refine .inr ⟨e, t.fence, exec_refresh_of_error ?_, exec_refresh_of_error ?_, ?_⟩
      · rw [exec_refreshInner_live hlive (by omega)]
        exact Mut.exec_bind_of_error hloop
      · rw [exec_refreshInner_live hlive (by rw [List.length_append]; omega), roundLoop_append,
          bind_assoc]
        exact Mut.exec_bind_of_error hloop
      · exact ⟨reconstruct, by rw [exec_refresh_not_live not_live_fence, fence_fence]⟩
    · obtain ⟨hrests, hcapture⟩ := roundLoop_rests hne hloop
      obtain ⟨v, hv⟩ := exec_candidateAt_rests hrests hcapture
      refine .inl ⟨v, t, exec_refresh_of_ok ?_, exec_refresh_congr ?_⟩
      · rw [exec_refreshInner_live hlive (by omega)]
        exact (Mut.exec_bind_of_ok hloop).trans hv
      · rw [exec_refreshInner_live hlive (by rw [List.length_append]; omega),
          exec_refreshInner_live (.of_rests hrests) (by omega), roundLoop_append, bind_assoc]
        exact Mut.exec_bind_of_ok hloop
  · refine .inr ⟨reconstruct, b.fence, exec_refresh_not_live hlive, exec_refresh_not_live hlive, ?_⟩
    exact ⟨reconstruct, by rw [exec_refresh_not_live not_live_fence, fence_fence]⟩

end BatchKeeper

end LumaOS.Utc
