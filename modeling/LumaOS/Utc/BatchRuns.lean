import LumaOS.Base.Run
import LumaOS.Utc.Batch
import LumaOS.Utc.Runs

/-!
# Runs of a batch keeper

A run is any list of refreshes, questions for the candidate and invalidations, as the stream makes
them. `Recalls` is what the keeper still knows of it: after a refresh that failed it is not live,
after one that reached `Bounded` it does not acquire any more, and while it is live its last capture
is that of the last round offered to it.

**`batches_hide_nothing`**: no way of cutting the rounds into batches hides the loss of a quorum.
-/

namespace LumaOS.Utc

open LumaOS.Base LumaOS.Governance
open Receiver (ProducerRound)

/-- One call of a batch keeper. -/
inductive BatchOp where
  | refresh (rounds : List ProducerRound) (now : Clock)
  | candidateAt (now : Clock)
  | invalidate

namespace BatchKeeper

def step (b : BatchKeeper) : BatchOp → Result (Option Interval) × BatchKeeper
  | .refresh rounds now => (refresh rounds now).exec b
  | .candidateAt now => (candidateAt now).exec b
  | .invalidate => (.ok none, b.fence)

abbrev Poll := Event BatchKeeper BatchOp (Result (Option Interval))

/-- The rounds that a call offers. -/
def offeredBy : BatchOp → List ProducerRound
  | .refresh rounds _ => rounds
  | .candidateAt _ | .invalidate => []

/-- The rounds offered by a run. -/
def offered (past : List Poll) : List ProducerRound := past.flatMap fun e => offeredBy e.op

/-- A refresh that failed. -/
def Lost (e : Poll) : Prop :=
  ∃ rounds now stop, e.op = .refresh rounds now ∧ e.result = .error stop

/-- A refresh that left the keeper bounded. -/
def Found (e : Poll) : Prop :=
  ∃ rounds now, e.op = .refresh rounds now ∧ e.after.keeper.state = .bounded

/-- **The batch may be cut there**: as a whole it gives what its second part gives after the first,
which is taken at the capture clock of its last round. -/
structure Splits (b : BatchKeeper) (xs ys : List ProducerRound) (now : Clock) (hne : xs ≠ []) :
    Prop where
  value : ∀ v, ((refresh (xs ++ ys) now).exec b).1 = .ok v ↔
    ((refresh ys now).exec
      ((refresh xs (captured (xs.getLast hne) now.suspendGeneration)).exec b).2).1 = .ok v
  state : ((refresh (xs ++ ys) now).exec b).2 =
    ((refresh ys now).exec
      ((refresh xs (captured (xs.getLast hne) now.suspendGeneration)).exec b).2).2
  failed : ∀ stop, ((refresh xs (captured (xs.getLast hne) now.suspendGeneration)).exec b).1 =
    .error stop → ((refresh (xs ++ ys) now).exec b).1 = .error stop
  passed : ∀ v, ((refresh xs (captured (xs.getLast hne) now.suspendGeneration)).exec b).1 = .ok v →
    (refresh (xs ++ ys) now).exec b = (refresh ys now).exec
      ((refresh xs (captured (xs.getLast hne) now.suspendGeneration)).exec b).2

variable {b b' : BatchKeeper} {past : List Poll}

theorem splits {xs ys : List ProducerRound} {now : Clock} (hne : xs ≠ [])
    (hlen : (xs ++ ys).length ≤ drainLimit) : Splits b xs ys now hne := by
  rcases refresh_append hne hlen b with ⟨v, t, hfirst, hwhole⟩ | ⟨e, t, hfirst, hwhole, e', hsecond⟩
  · refine ⟨fun _ => ?_, ?_, fun stop hstop => ?_, fun _ _ => ?_⟩
    · rw [hfirst, hwhole]
    · rw [hfirst, hwhole]
    · rw [hfirst] at hstop
      cases hstop
    · rw [hfirst, hwhole]
  · refine ⟨fun v => ?_, ?_, fun stop hstop => ?_, fun v hv => ?_⟩
    · rw [hfirst, hwhole, hsecond]
      exact ⟨fun h => (by cases h), fun h => by cases h⟩
    · rw [hfirst, hwhole, hsecond]
    · rw [hfirst] at hstop
      rw [hwhole]
      exact hstop
    · rw [hfirst] at hv
      cases hv

/-! ## What a call leaves -/

/-- A question leaves what a keeper's step leaves. -/
theorem keeper_step {α : Type} {m : Mut Keeper α} {f : α → Option Interval} {op : Op}
    (h : op.call = m >>= fun a => pure (f a)) (k : Keeper) :
    ∃ r, Step k op r (m.exec k).2 := by
  have hstep : op.call.Yields k (Step k op) := call_step op
  unfold Mut.Yields at hstep
  rw [h] at hstep
  rcases hm : m.exec k with ⟨e | a, k'⟩
  · rw [Mut.exec_bind_of_error hm] at hstep
    exact ⟨_, hstep⟩
  · rw [Mut.exec_bind_of_ok hm] at hstep
    exact ⟨_, hstep⟩

/-- A question does not move a keeper that stays live. -/
theorem state_of_question {k k' : Keeper} {now : Clock} {op : Op} {r : Result (Option Interval)}
    (hop : op = .checkBoundary now ∨ op = .candidateAt now) (h : Step k op r k')
    (hlive : k'.state = .acquiring ∨ k'.state = .bounded) : k'.state = k.state := by
  have hround : op.round? = none := by
    rcases hop with rfl | rfl
    · rfl
    · rfl
  cases h with
  | refused _ message state hstate =>
    simp only [Keeper.close] at hlive
    rcases hstate with rfl | rfl <;> rcases hlive with h | h <;> cases h
  | fence => rcases hop with h | h <;> cases h
  | checked => rfl
  | reacquired => rcases hop with h | h <;> cases h
  | gathered _ round now' hop' | bounded _ round now' i hop' =>
    rw [hround] at hop'
    cases hop'
  | renewed => rfl

/-- What a question for the candidate leaves, and how old the newest capture was if it returned an
interval. -/
structure Questioned (b : BatchKeeper) (now : Clock) (r : Result (Option Interval))
    (b' : BatchKeeper) : Prop where
  capture : b'.lastCaptureMs = b.lastCaptureMs
  state : b'.Live → b'.keeper.state = b.keeper.state
  recent : ∀ i, r = .ok (some i) → ∃ capture, b.lastCaptureMs = some capture ∧
    capture ≤ now.boottimeMs ∧ now.boottimeMs.toNat - capture.toNat ≤ 999

theorem questioned_error {now : Clock} {e : Stop} : Questioned b now (.error e) b :=
  ⟨rfl, fun _ => rfl, fun i h => by cases h⟩

theorem candidateAt_yields (now : Clock) : (candidateAt now).Yields b (Questioned b now) := by
  have hboundary : ∀ {r : Result (Option Interval)}, (∀ i, r ≠ .ok (some i)) →
      Questioned b now r { b with keeper := ((Keeper.checkBoundary now).exec b.keeper).2 } :=
    fun hr => ⟨rfl, fun hlive => by
      obtain ⟨_, hstep⟩ := (@keeper_step _ _ (fun _ => none) (.checkBoundary now)) rfl b.keeper
      exact state_of_question (.inl rfl) hstep hlive, fun i h => absurd h (hr i)⟩
  have hchecked : (do
      onKeeper (Keeper.checkBoundary now)
      pure none : Mut BatchKeeper (Option Interval)).Yields b (Questioned b now) := by
    refine Mut.yields_bind ?_
    unfold Mut.Yields
    rw [exec_onKeeper]
    rcases ((Keeper.checkBoundary now).exec b.keeper).1 with e | u
    · exact hboundary fun i h => by cases h
    · exact Mut.yields_pure (hboundary fun i h => by cases h)
  unfold candidateAt
  refine Mut.yields_bind_get ?_
  cases hcapture : b.lastCaptureMs with
  | none =>
    refine Mut.yields_bind_lift (fun e _ => ?_) fun _ _ => hchecked
    exact questioned_error
  | some capture =>
    refine Mut.yields_bind_lift (fun e _ => questioned_error) fun age hage => ?_
    refine Mut.yields_bind_lift (fun e _ => questioned_error) fun _ _ => ?_
    split
    · exact hchecked
    · refine Mut.yields_bind ?_
      have hstep := (@keeper_step _ _ some (.candidateAt now)) rfl b.keeper
      unfold Mut.Yields
      rw [exec_onKeeper]
      rw [okOr_eq_ok, Option.filter_eq_some_iff, u64Sub_eq_some, decide_eq_true_eq] at hage
      obtain ⟨⟨hle, rfl⟩, hrecent⟩ := hage
      have hquestioned : ∀ r, Questioned b now r
          { b with keeper := ((Keeper.candidateAt now).exec b.keeper).2 } := fun r =>
        ⟨rfl, fun hlive => by
          obtain ⟨_, hstep⟩ := hstep
          exact state_of_question (.inr rfl) hstep hlive, fun i _ => by
          refine ⟨capture, hcapture, hle, ?_⟩
          have := UInt64.le_iff_toNat_le.mp hrecent
          rwa [UInt64.toNat_sub_of_le _ _ hle] at this⟩
      rcases ((Keeper.candidateAt now).exec b.keeper).1 with e | i
      · exact hquestioned _
      · exact Mut.yields_pure (hquestioned _)

/-- The last capture after a loop over rounds. -/
theorem roundLoop_capture {suspendGeneration : UInt64} {rounds : List ProducerRound}
    (h : (roundLoop suspendGeneration rounds).exec b = (.ok (), b')) (hlive : b.Live) :
    b'.Live ∧ b'.lastCaptureMs =
      (rounds.getLast?.map ProducerRound.capturedBoottimeMs).or b.lastCaptureMs := by
  by_cases hne : rounds = []
  · subst hne
    cases h
    exact ⟨hlive, rfl⟩
  · obtain ⟨hrests, hcapture⟩ := roundLoop_rests hne h
    refine ⟨.of_rests hrests, ?_⟩
    rw [hcapture, List.getLast?_eq_some_getLast hne]
    rfl

/-- **What a refresh leaves**: it fails and is not live, or it went through all rounds. -/
theorem refresh_cases (b : BatchKeeper) (rounds : List ProducerRound) (now : Clock) :
    ((∃ stop, ((refresh rounds now).exec b).1 = .error stop) ∧
      ¬((refresh rounds now).exec b).2.Live) ∨
    ∃ t v, b.Live ∧ (roundLoop now.suspendGeneration rounds).exec b = (.ok (), t) ∧
      ((refresh rounds now).exec b).1 = .ok v ∧
      Questioned t now (.ok v) ((refresh rounds now).exec b).2 := by
  by_cases hlive : b.Live
  · rcases hinner : (refreshInner rounds now).exec b with ⟨e | v, b'⟩
    · rw [exec_refresh_of_error hinner]
      exact .inl ⟨⟨e, rfl⟩, not_live_fence⟩
    · have hquestioned := hinner
      rw [refreshInner, Mut.exec_bind_get, Mut.exec_bind_lift_eq_ok] at hquestioned
      obtain ⟨_, -, hquestioned⟩ := hquestioned
      rw [Mut.exec_bind_lift_eq_ok] at hquestioned
      obtain ⟨_, -, hquestioned⟩ := hquestioned
      rw [Mut.exec_bind_eq_ok] at hquestioned
      obtain ⟨_, t, hloop, hquestioned⟩ := hquestioned
      have hyields := candidateAt_yields (b := t) now
      unfold Mut.Yields at hyields
      rw [hquestioned] at hyields
      rw [exec_refresh_of_ok hinner]
      exact .inr ⟨t, v, hlive, hloop, rfl, hyields⟩
  · rw [exec_refresh_not_live hlive]
    exact .inl ⟨⟨reconstruct, rfl⟩, not_live_fence⟩

/-! ## What a keeper recalls of a run -/

theorem offered_append (past : List Poll) (e : Poll) :
    offered (past ++ [e]) = offered past ++ offeredBy e.op := by
  unfold offered
  rw [List.flatMap_append, List.flatMap_singleton]

structure Recalls (past : List Poll) (b : BatchKeeper) : Prop where
  lost : (∃ e ∈ past, Lost e) → ¬b.Live
  found : (∃ e ∈ past, Found e) → b.keeper.state ≠ .acquiring
  capture : b.Live → b.lastCaptureMs =
    (offered past).getLast?.map ProducerRound.capturedBoottimeMs

/-- A call that is not live afterwards, or moves the capture as it should. -/
theorem Recalls.append (h : Recalls past b) {e : Poll} (hlost : Lost e → ¬b'.Live)
    (hfound : Found e → b'.keeper.state ≠ .acquiring) (hlive : b'.Live → b.Live)
    (hstate : b'.Live → b'.keeper.state = .acquiring → b.keeper.state = .acquiring)
    (hcapture : b'.Live → b'.lastCaptureMs =
      ((offeredBy e.op).getLast?.map ProducerRound.capturedBoottimeMs).or b.lastCaptureMs) :
    Recalls (past ++ [e]) b' := by
  refine ⟨?_, ?_, fun hl => ?_⟩
  · rintro ⟨x, hx, hlost'⟩ hl
    rcases List.mem_append.mp hx with hold | hone
    · exact h.lost ⟨x, hold, hlost'⟩ (hlive hl)
    · exact hlost (List.mem_singleton.mp hone ▸ hlost') hl
  · rintro ⟨x, hx, hfound'⟩ hacquiring
    rcases List.mem_append.mp hx with hold | hone
    · exact h.found ⟨x, hold, hfound'⟩ (hstate (.inl hacquiring) hacquiring)
    · exact hfound (List.mem_singleton.mp hone ▸ hfound') hacquiring
  · rw [hcapture hl, h.capture (hlive hl), offered_append, List.getLast?_append, Option.map_or]

/-- A call that offers no round and cannot make the keeper live. -/
theorem Recalls.quiet (h : Recalls past b) {e : Poll} (hrefresh : ∀ rounds now, e.op ≠ .refresh rounds now)
    (hstate : b'.Live → b'.keeper.state = b.keeper.state)
    (hcapture : b'.lastCaptureMs = b.lastCaptureMs) : Recalls (past ++ [e]) b' := by
  have hoffered : offeredBy e.op = [] := by
    cases hop : e.op with
    | refresh rounds now => exact absurd hop (hrefresh rounds now)
    | candidateAt now => rfl
    | invalidate => rfl
  refine h.append ?_ ?_ (fun hl => ?_) (fun hl ha => (hstate hl).symm.trans ha) fun _ => ?_
  · rintro ⟨rounds, now, _, hop, -⟩
    exact absurd hop (hrefresh rounds now)
  · rintro ⟨rounds, now, hop, -⟩
    exact absurd hop (hrefresh rounds now)
  · have := hstate hl
    unfold Live at hl ⊢
    rwa [← this]
  · rw [hcapture, hoffered]
    rfl

/-- **One call keeps what is recalled.** -/
theorem Recalls.step (h : Recalls past b) (op : BatchOp) :
    Recalls (past ++ [⟨b, op, (step b op).1, (step b op).2⟩]) (step b op).2 := by
  cases op with
  | candidateAt now =>
    have hquestioned := candidateAt_yields (b := b) now
    exact h.quiet (fun _ _ h => by cases h) hquestioned.state hquestioned.capture
  | invalidate =>
    exact h.quiet (fun _ _ h => by cases h) (fun hl => absurd hl not_live_fence) rfl
  | refresh rounds now =>
    have hstep : BatchKeeper.step b (.refresh rounds now) = (refresh rounds now).exec b := rfl
    rw [hstep]
    rcases refresh_cases b rounds now with ⟨⟨stop, hstop⟩, hdead⟩ | ⟨t, v, hlive, hloop, hv, hquestioned⟩
    · exact h.append (fun _ => hdead) (fun ⟨_, _, _, hbounded⟩ hacquiring => by
        rw [hacquiring] at hbounded
        cases hbounded) (fun hl => absurd hl hdead) (fun hl => absurd hl hdead) fun hl => absurd hl hdead
    · obtain ⟨-, hcapture⟩ := roundLoop_capture hloop hlive
      have hkept := (roundLoop_kept hloop).2.2
      refine h.append ?_ ?_ (fun _ => hlive) (fun hl ha => ?_) fun _ => ?_
      · rintro ⟨_, _, stop, -, hstop⟩
        dsimp only at hstop
        rw [hv] at hstop
        cases hstop
      · rintro ⟨_, _, -, hbounded⟩ hacquiring
        dsimp only at hbounded
        rw [hacquiring] at hbounded
        cases hbounded
      · rcases hlive with hacquiring | hbounded
        · exact hacquiring
        · have := (hkept hbounded).1
          rw [hquestioned.state hl, this] at ha
          cases ha
      · rw [hquestioned.capture, hcapture]
        rfl

theorem recalls_new {fixed : Result ApprovedPolicy} {producer : Receiver.ProducerEpoch}
    {floorMs : Int} {initial : Clock} (h : BatchKeeper.new fixed producer floorMs initial = .ok b) :
    Recalls [] b := by
  have hnone : ∀ e : Poll, e ∉ ([] : List Poll) := fun _ => List.not_mem_nil
  refine ⟨fun ⟨e, he, _⟩ => absurd he (hnone e), fun ⟨e, he, _⟩ => absurd he (hnone e), fun _ => ?_⟩
  simp only [BatchKeeper.new, bind_eq_ok] at h
  obtain ⟨_, -, _, -, keeper, -, h⟩ := h
  split at h
  · cases h
  · cases h
    rfl

/-- A bounded keeper fails at a poor round. -/
theorem refresh_poor {rounds : List ProducerRound} {now : Clock} (hstate : b.keeper.state ≠ .acquiring)
    {producer : ProducerRound} (hin : producer ∈ rounds) (hpoor : b.keeper.Poor producer) :
    ∃ stop, ((refresh rounds now).exec b).1 = .error stop := by
  rcases refresh_cases b rounds now with ⟨hstop, -⟩ | ⟨t, v, hlive, hloop, -, -⟩
  · exact hstop
  · have hbounded : b.keeper.state = .bounded := hlive.resolve_left hstate
    exact absurd hpoor (((roundLoop_kept hloop).2.2 hbounded).2 producer hin)

/-- What a refresh within a run must not hide. -/
structure Unhidden (past : List Poll) (b : BatchKeeper) (rounds : List ProducerRound) (now : Clock)
    (result : Result (Option Interval)) : Prop where
  poor : (∃ e ∈ past, Found e) → ∀ producer ∈ rounds, b.keeper.Poor producer →
    ∃ stop, result = .error stop
  within : ∀ before producer after, rounds = before ++ producer :: after → ∀ hne : before ≠ [],
    let first := (refresh before (captured (before.getLast hne) now.suspendGeneration)).exec b
    first.2.keeper.state = .bounded → first.2.keeper.Poor producer → ∃ stop, result = .error stop
  lost : (∃ e ∈ past, Lost e) → ∃ stop, result = .error stop
  recent : ∀ i, result = .ok (some i) → ∃ producer,
    (offered past ++ rounds).getLast? = some producer ∧
      producer.capturedBoottimeMs ≤ now.boottimeMs ∧
      now.boottimeMs.toNat - producer.capturedBoottimeMs.toNat ≤ 999

/-- A batch that is too long is refused. -/
theorem refresh_too_long {rounds : List ProducerRound} {now : Clock} (h : drainLimit < rounds.length) :
    ∃ stop, ((refresh rounds now).exec b).1 = .error stop := by
  rcases hinner : (refreshInner rounds now).exec b with ⟨e | v, b'⟩
  · exact ⟨e, by rw [exec_refresh_of_error hinner]⟩
  · rw [refreshInner, Mut.exec_bind_get, Mut.exec_bind_lift_eq_ok] at hinner
    obtain ⟨_, -, hinner⟩ := hinner
    rw [Mut.exec_bind_lift_eq_ok] at hinner
    obtain ⟨_, hbound, -⟩ := hinner
    rw [refuseIf_eq_ok, decide_eq_false_iff_not] at hbound
    exact absurd h hbound

theorem Recalls.unhidden (h : Recalls past b) (rounds : List ProducerRound) (now : Clock) :
    Unhidden past b rounds now ((refresh rounds now).exec b).1 := by
  refine ⟨fun hfound producer hin hpoor => refresh_poor (h.found hfound) hin hpoor, ?_, fun hlost => ?_,
    fun i hi => ?_⟩
  · rintro before producer after rfl hne
    dsimp only
    intro hbounded hpoor
    by_cases hlen : (before ++ producer :: after).length ≤ drainLimit
    · have hsplits := (@splits b _ (producer :: after) now) hne hlen
      rcases hfirst : ((refresh before (captured (before.getLast hne)
          now.suspendGeneration)).exec b).1 with stop | v
      · exact ⟨stop, hsplits.failed stop hfirst⟩
      · rw [hsplits.passed v hfirst]
        exact refresh_poor (by rw [hbounded]; exact fun h => by cases h) List.mem_cons_self hpoor
    · exact refresh_too_long (by omega)
  · rw [exec_refresh_not_live (h.lost hlost)]
    exact ⟨reconstruct, rfl⟩
  · rcases refresh_cases b rounds now with ⟨⟨stop, hstop⟩, -⟩ | ⟨t, v, hlive, hloop, hv, hquestioned⟩
    · rw [hstop] at hi
      cases hi
    · rw [hv] at hi
      obtain ⟨capture, hcapture, hle, hrecent⟩ := hquestioned.recent i hi
      rw [(roundLoop_capture hloop hlive).2, h.capture hlive, ← Option.map_or,
        ← List.getLast?_append] at hcapture
      obtain ⟨producer, hlast, rfl⟩ := Option.map_eq_some_iff.mp hcapture
      exact ⟨producer, hlast, hle, hrecent⟩

/-- **Batching hides nothing.** In every state of a run of a new batch keeper a batch may be cut
anywhere; and in every refresh of the run: once a refresh has reached `Bounded`, a round without a
quorum fails the refresh that contains it, also when it is a round before it in the same batch that
has reached `Bounded`; after a refresh that failed every refresh fails; and an interval comes with a
newest round captured at most 999 milliseconds before. -/
theorem batches_hide_nothing (fixed : Result ApprovedPolicy) (producer : Receiver.ProducerEpoch)
    (historyFloorMs : Int) (initial : Clock) (b : BatchKeeper)
    (hnew : BatchKeeper.new fixed producer historyFloorMs initial = .ok b) (ops : List BatchOp) :
    (∀ t ∈ b :: (events step b ops).map Event.after, ∀ (xs ys : List ProducerRound) (now : Clock)
      (hne : xs ≠ []), (xs ++ ys).length ≤ drainLimit → Splits t xs ys now hne) ∧
    ∀ past e rest, events step b ops = past ++ e :: rest → ∀ rounds now, e.op = .refresh rounds now →
      Unhidden past e.before rounds now e.result := by
  refine ⟨fun t _ xs ys now hne hlen => splits hne hlen, fun past e rest he rounds now hop => ?_⟩
  obtain ⟨hrecalls, -, his, -⟩ := events_rule (anyRequest ops) (I := Recalls) (fun past e _ hr his => by
    have hnext := hr.step e.op
    have hevent : step e.before e.op = (e.result, e.after) := his
    rw [hevent] at hnext
    exact hnext) [] (recalls_new hnew) past e rest he
  have hevent : step e.before e.op = (e.result, e.after) := his
  rw [hop] at hevent
  have hunhidden := hrecalls.unhidden rounds now
  have hresult : ((refresh rounds now).exec e.before).1 = e.result := congrArg Prod.fst hevent
  rwa [hresult, List.nil_append] at hunhidden

/-! ## A run -/

def approved : ApprovedPolicy := ⟨Vector.replicate 32 1⟩

def sampleEpoch : Receiver.ProducerEpoch :=
  ⟨Vector.replicate 16 1, 1, 1, Vector.replicate 32 1⟩

/-- A batch keeper as `new` makes it. -/
def opened : BatchKeeper where
  producer := sampleEpoch
  keeper := { Keeper.sample with
    state := .acquiring
    lastClock := some ⟨10, 10, 10, 0⟩
    barrierMs := 10 }
  lastCaptureMs := none

/-- A round of two measured sources, and one of none. -/
def quorate (sequence capturedMs : UInt64) : ProducerRound :=
  ⟨sampleEpoch, sequence, capturedMs, capturedMs, capturedMs.toNat,
    #v[.measured 1 sequence capturedMs ⟨1000000, 1000050⟩, .unavailable 2,
      .measured 3 sequence capturedMs ⟨1000010, 1000060⟩]⟩

def mute (sequence capturedMs : UInt64) : ProducerRound :=
  ⟨sampleEpoch, sequence, capturedMs, capturedMs, capturedMs.toNat,
    #v[.unavailable 1, .unavailable 2, .unavailable 3]⟩

/-- A round with a quorum and a later one without, which the next batch carries before a good one. -/
def muted : List BatchOp :=
  [.refresh [quorate 1 20] ⟨25, 25, 25, 0⟩, .refresh [mute 2 30, quorate 3 40] ⟨45, 45, 45, 0⟩]

theorem batches_hide_nothing_muted :
    (events step opened muted).map (fun e => (e.result, e.after.keeper.state)) =
      [(.ok (some ⟨1000020, 1000066⟩), .bounded),
        (.error (.refused "UTC requires two or three independent operators"), .fenced)] ∧
    ∀ past e rest, events step opened muted = past ++ e :: rest → ∀ rounds now,
      e.op = .refresh rounds now → Unhidden past e.before rounds now e.result :=
  ⟨by decide +kernel, (batches_hide_nothing (.ok approved) sampleEpoch 1000020 ⟨10, 10, 10, 0⟩ opened
    rfl muted).2⟩

end BatchKeeper

end LumaOS.Utc
