import LumaOS.Boot.Runs
import Mathlib.Data.List.DropRight

/-!
# The active release changes only through an evidenced trial

`Story past s` ties a state to the events that led to it: what the update in flight has been
through since the last idle state, and what the current boot attempt has seen. One lemma says that
an event keeps it (`story_step`); what it says at a commit is `Evidenced`.

* `trial_evidenced`: the floor is the active release's sequence and never falls, only a commit
  changes the active slot and its record, and every commit has its evidence.
-/

namespace LumaOS.Boot

open LumaOS.Base LumaOS.Text LumaOS.Json

variable {sha256 : Bytes → Vector UInt8 32} {s : BootState} {past : List Moment} {e : Moment}

/-! ## The stages of a trial -/

/-- The nonce of a first boot that was recorded. -/
def Moment.firstBootNonce (e : Moment) : Option String :=
  (Moment.applied e).bind fun c => if c.kind = .beginFirstBoot then c.attemptNonce else none

/-- A command of the kind was applied. -/
def Moment.Did (kind : CommandKind) (e : Moment) : Prop :=
  ∃ c, Moment.applied e = some c ∧ c.kind = kind

/-- `BEGIN_DOWNLOAD` of the identity into the inactive slot. -/
def Moment.Began (identity : ReleaseIdentity) (target : SlotName) (e : Moment) : Prop :=
  ∃ c a, Moment.applied e = some c ∧ c.kind = .beginDownload ∧ c.artifact = some a ∧
    a.identity = identity ∧ c.targetSlot = some target ∧ target ≠ e.before.activeSlot

/-- `VERIFY_COMPLETE` with the artifact, trusted and verified. -/
def Moment.Verified (a : ReleaseArtifact) (e : Moment) : Prop :=
  ∃ c, Moment.applied e = some c ∧ c.kind = .verifyComplete ∧ c.artifact = some a ∧
    a.trustedAndVerified = true

/-- `BEGIN_FIRST_BOOT` with the nonce. -/
def Moment.Booted (nonce : String) (e : Moment) : Prop := Moment.firstBootNonce e = some nonce

/-- A persisted and verified observation of the slot and the release, in the attempt. -/
def Moment.Observed (a : ReleaseArtifact) (target : SlotName) (nonce : String) (e : Moment) : Prop :=
  ∃ c o, Moment.applied e = some c ∧ c.kind = .recordBootObservation ∧
    c.bootObservation = some o ∧
    e.op.guards.bootObservationVerifier.verifyPersisted o = true ∧ o.attemptNonce = nonce ∧
    o.actualSlot = target ∧ o.releaseManifestSha256 = a.identity.manifestSha256 ∧
    o.releaseRootSha256 = a.identity.rootSha256 ∧ o.trustedAndVerified = true

/-- An acknowledgement of exactly the essential services. -/
def Moment.Healthy (e : Moment) : Prop :=
  ∃ c, Moment.applied e = some c ∧ c.kind = .ackEssentialHealth ∧
    c.healthyServices = e.before.essentialServices

/-- No attempt ended or began. -/
def Moment.Quiet (e : Moment) : Prop :=
  ∀ c, Moment.applied e = some c → c.kind ≠ .trialFailure ∧ c.kind ≠ .reconcilePowerLoss ∧
    c.kind ≠ .beginFirstBoot

/-- What an update goes through before its first boot. -/
def stages (a : ReleaseArtifact) (target : SlotName) : List (Moment → Prop) :=
  [Moment.Began a.identity target, Moment.Did .downloadComplete, Moment.Verified a,
    Moment.Did .writeComplete, Moment.Did .selectTrial]

/-- The events since the last idle state. -/
def sinceIdle (past : List Moment) : List Moment := past.rtakeWhile fun e => e.after.phase != .idle

/-- **The evidence of a commit** of the release to the slot. -/
structure Evidenced (past : List Moment) (a : ReleaseArtifact) (target : SlotName) : Prop where
  attempt : ∃ older updates booted tail nonce, past = older ++ (updates ++ booted :: tail) ∧
    sinceIdle past = updates ++ booted :: tail ∧ InOrder (stages a target) updates ∧
    Moment.Booted nonce booted ∧ (∀ e ∈ older ++ updates, ¬Moment.Booted nonce e) ∧
    (∀ e ∈ tail, Moment.Quiet e) ∧ InOrder [Moment.Observed a target nonce, Moment.Healthy] tail

/-! ## The story of a state -/

/-- How many of the stages are past. -/
def BootState.progress (s : BootState) : Nat :=
  match s.phase with
  | .idle => 0
  | .download => 1
  | .verify => 2
  | .write => 3
  | .select => if some s.selectedSlot = s.targetSlot then 5 else 4
  | .firstBoot => 5

/-- The current boot attempt. -/
structure Attempt (past : List Moment) (s : BootState) (a : ReleaseArtifact) (target : SlotName) :
    Prop where
  recorded : ∃ updates booted tail nonce, s.currentAttemptNonce = some nonce ∧
    sinceIdle past = updates ++ booted :: tail ∧ InOrder (stages a target) updates ∧
    Moment.Booted nonce booted ∧ (∀ e ∈ tail, Moment.Quiet e) ∧
    (s.bootObservation.isSome → InOrder [Moment.Observed a target nonce] tail) ∧
    (s.healthAcknowledgement.isSome →
      InOrder [Moment.Observed a target nonce, Moment.Healthy] tail)

structure Story (past : List Moment) (s : BootState) : Prop where
  nonces : s.usedAttemptNonces = past.filterMap Moment.firstBootNonce
  trial : s.phase ≠ .idle → ∀ a target, s.candidate = some a → s.targetSlot = some target →
    InOrder ((stages a target).take s.progress) (sinceIdle past)
  attempt : s.phase = .firstBoot → ∀ a target, s.candidate = some a →
    s.targetSlot = some target → Attempt past s a target

theorem sinceIdle_snoc (h : e.after.phase ≠ .idle) :
    sinceIdle (past ++ [e]) = sinceIdle past ++ [e] :=
  List.rtakeWhile_concat_pos _ _ e (by simpa using h)

/-- A command that is no first boot records no nonce. -/
theorem firstBootNonce_of_kind {c : BootCommand} (h : Moment.applied e = some c)
    (hk : c.kind ≠ .beginFirstBoot) : Moment.firstBootNonce e = none := by
  rw [Moment.firstBootNonce, h]
  exact if_neg hk

theorem filterMap_snoc (past : List Moment) (e : Moment) :
    (past ++ [e]).filterMap Moment.firstBootNonce =
      past.filterMap Moment.firstBootNonce ++ (Moment.firstBootNonce e).toList := by
  rw [List.filterMap_append]
  cases h : Moment.firstBootNonce e <;> simp [h]

/-- The story does not depend on the ledger and the seal. -/
theorem Story.of_changed {c : BootCommand} {changed : BootState} {outcome : String}
    {G : TransitionGuards} (h : Story past changed) :
    Story past ((unsealed sha256 s c changed outcome).withSeal G) where
  nonces := h.nonces
  trial := h.trial
  attempt hp a target ha ht := ⟨(h.attempt hp a target ha ht).recorded⟩

/-- An attempt goes on. -/
theorem Attempt.snoc {s' : BootState} {a : ReleaseArtifact} {target : SlotName}
    (h : Attempt past s a target) (hphase : e.after.phase ≠ .idle) (hquiet : Moment.Quiet e)
    (hnonce : s'.currentAttemptNonce = s.currentAttemptNonce)
    (hobserved : s'.bootObservation.isSome → s.bootObservation.isSome ∨
      ∀ nonce, s.currentAttemptNonce = some nonce → Moment.Observed a target nonce e)
    (hhealthy : s'.healthAcknowledgement.isSome → s.healthAcknowledgement.isSome ∨
      (s.bootObservation.isSome ∧ Moment.Healthy e)) : Attempt (past ++ [e]) s' a target := by
  obtain ⟨updates, booted, tail, nonce, hcurrent, hsince, hstages, hbooted, htail, hobs, hack⟩ :=
    h.recorded
  refine ⟨updates, booted, tail ++ [e], nonce, hnonce.trans hcurrent, ?_, hstages, hbooted, ?_, ?_,
    ?_⟩
  · rw [sinceIdle_snoc hphase, hsince, List.append_assoc, List.cons_append]
  · exact List.forall_mem_append.mpr ⟨htail, by simpa using hquiet⟩
  · intro h
    rcases hobserved h with h | h
    · exact (hobs h).snoc e
    · exact inOrder_nil.extend (h nonce hcurrent)
  · intro h
    rcases hhealthy h with h | ⟨h, he⟩
    · exact (hack h).snoc e
    · exact (hobs h).extend he

/-- An event that changes nothing the story is about. -/
theorem Story.snoc {s' : BootState} (h : Story past s) (hafter : e.after.phase = s'.phase)
    (hfirst : Moment.firstBootNonce e = none) (hnonces : s'.usedAttemptNonces = s.usedAttemptNonces)
    (hphase : s'.phase = s.phase) (hcandidate : s'.candidate = s.candidate)
    (htarget : s'.targetSlot = s.targetSlot) (hprogress : s'.progress = s.progress)
    (hattempt : s'.phase = .firstBoot → ∀ a target, s.candidate = some a →
      s.targetSlot = some target → Attempt past s a target → Attempt (past ++ [e]) s' a target) :
    Story (past ++ [e]) s' where
  nonces := by rw [filterMap_snoc, hfirst, hnonces, h.nonces, Option.toList_none, List.append_nil]
  trial hp a target ha ht := by
    rw [hcandidate] at ha
    rw [htarget] at ht
    rw [sinceIdle_snoc (by rwa [hafter]), hprogress]
    exact (h.trial (hphase ▸ hp) a target ha ht).snoc e
  attempt hp a target ha ht := by
    rw [hcandidate] at ha
    rw [htarget] at ht
    exact hattempt hp a target ha ht (h.attempt (hphase ▸ hp) a target ha ht)

/-- An idle state has no story but its nonces. -/
theorem story_of_idle {s' : BootState} (h : Story past s) (hidle : s'.phase = .idle)
    (hfirst : Moment.firstBootNonce e = none) (hnonces : s'.usedAttemptNonces = s.usedAttemptNonces) :
    Story (past ++ [e]) s' where
  nonces := by rw [filterMap_snoc, hfirst, hnonces, h.nonces, Option.toList_none, List.append_nil]
  trial hp := absurd hidle hp
  attempt hp := absurd (hidle.symm.trans hp) (by decide)

/-- An event that takes an update one stage further, before its first boot. -/
theorem story_of_stage {s' : BootState} (h : Story past s) (hafter : e.after.phase = s'.phase)
    (hfirst : Moment.firstBootNonce e = none) (hnonces : s'.usedAttemptNonces = s.usedAttemptNonces)
    (hphase : s'.phase ≠ .firstBoot)
    (htrial : s'.phase ≠ .idle → ∀ a target, s'.candidate = some a → s'.targetSlot = some target →
      InOrder ((stages a target).take s'.progress) (sinceIdle past ++ [e])) :
    Story (past ++ [e]) s' where
  nonces := by rw [filterMap_snoc, hfirst, hnonces, h.nonces, Option.toList_none, List.append_nil]
  trial hp a target ha ht := by
    rw [sinceIdle_snoc (by rwa [hafter])]
    exact htrial hp a target ha ht
  attempt hp := absurd hp hphase

/-- **One event keeps the story.** -/
theorem story_step (hs : e.before.Sound sha256) (h : Story past e.before)
    (hhappens : Happens sha256 e) : Story (past ++ [e]) e.after := by
  cases hhappens with
  | nothing hnone hsame =>
    have hquiet : Moment.Quiet e := fun c hc => by rw [hnone] at hc; cases hc
    refine h.snoc rfl (by rw [Moment.firstBootNonce, hnone]; rfl) ?_ ?_ ?_ ?_ ?_ ?_
    all_goals rw [hsame]
    intro hp a target ha ht hattempt
    exact hattempt.snoc (by rw [hsame, hp]; decide) hquiet rfl Or.inl Or.inl
  | @applied c changed outcome hcommand hfine hstep hafter hfence hgeneration hunused hreply =>
    have hphase : e.after.phase = changed.phase := by rw [hafter]; rfl
    rw [hafter]
    refine Story.of_changed ?_
    have hfirst : c.kind ≠ .beginFirstBoot → Moment.firstBootNonce e = none :=
      firstBootNonce_of_kind hcommand
    have hquiet : (c.kind ≠ .trialFailure ∧ c.kind ≠ .reconcilePowerLoss ∧
        c.kind ≠ .beginFirstBoot) → Moment.Quiet e := fun hk x hx => by
      rw [hcommand] at hx
      cases hx
      exact hk
    have hw := hs.wellFormed
    cases hstep with
    | @beginDownload target artifact kind phase hasTarget hasArtifact inactive other =>
      refine story_of_stage h hphase (hfirst (by rw [kind]; decide)) rfl (fun h => by cases h) ?_
      rintro - a t ⟨⟩ ⟨⟩
      exact inOrder_nil.extend ⟨c, artifact, hcommand, kind, hasArtifact, rfl, hasTarget, inactive⟩
    | downloadComplete kind phase =>
      refine story_of_stage h hphase (hfirst (by rw [kind]; decide)) rfl (fun h => by cases h) ?_
      intro _ a t ha ht
      have := h.trial (by rw [phase]; decide) a t ha ht
      rw [BootState.progress, phase] at this
      exact this.extend ⟨c, hcommand, kind⟩
    | verifyTampered kind phase | verifyRefused kind phase =>
      exact story_of_idle h rfl (hfirst (by rw [kind]; decide)) rfl
    | @verified candidate artifact kind phase hasArtifact hasCandidate same trusted compatible newer =>
      refine story_of_stage h hphase (hfirst (by rw [kind]; decide)) rfl (fun h => by cases h) ?_
      rintro - a t ⟨⟩ ht
      have := h.trial (by rw [phase]; decide) candidate t hasCandidate ht
      rw [BootState.progress, phase] at this
      -- the stages so far name the identity only, which the verified artifact shares
      have hstages : (stages candidate t).take 2 = (stages artifact t).take 2 := by
        simp only [stages, List.take_succ_cons, List.take_zero, same]
      rw [hstages] at this
      exact this.extend ⟨c, hcommand, kind, hasArtifact, trusted⟩
    | @written target candidate kind phase hasTarget hasCandidate trusted =>
      obtain ⟨_, t, -, ht, hne, hselected, -⟩ := hw.phase.early (Or.inr (Or.inr phase))
      refine story_of_stage h hphase (hfirst (by rw [kind]; decide)) rfl (fun h => by cases h) ?_
      intro _ a t' ha ht'
      have := h.trial (by rw [phase]; decide) a t' ha ht'
      rw [BootState.progress, phase] at this
      have hprogress : (if some e.before.selectedSlot = e.before.targetSlot then 5 else 4) = 4 := by
        rw [ht, hselected]
        exact if_neg fun h => hne (Option.some.inj h).symm
      change InOrder ((stages a t').take (if some e.before.selectedSlot = e.before.targetSlot
        then 5 else 4)) _
      rw [hprogress]
      exact this.extend ⟨c, hcommand, kind⟩
    | @selected target kind phase hasTarget unselected =>
      refine story_of_stage h hphase (hfirst (by rw [kind]; decide)) rfl
        (fun h => by rw [phase] at h; cases h) ?_
      intro _ a t ha ht
      have := h.trial (by rw [phase]; decide) a t ha ht
      rw [BootState.progress, phase, hasTarget] at this
      have hfour : (if some e.before.selectedSlot = some target then 5 else 4) = 4 :=
        if_neg fun h => unselected (Option.some.inj h)
      simp only [BootState.progress, phase, hasTarget, if_true]
      simp only [hfour] at this
      exact this.extend ⟨c, hcommand, kind⟩
    | @firstBoot target nonce kind phase hasTarget hasNonce selected fresh =>
      have hbooted : Moment.firstBootNonce e = some nonce := by
        rw [Moment.firstBootNonce, hcommand]
        exact (if_pos kind).trans hasNonce
      have hstages : ∀ a t, e.before.candidate = some a → e.before.targetSlot = some t →
          InOrder (stages a t) (sinceIdle past) := fun a t ha ht => by
        have := h.trial (by rw [phase]; decide) a t ha ht
        rw [BootState.progress, phase, hasTarget, selected] at this
        simpa [stages] using this
      have hsince : sinceIdle (past ++ [e]) = sinceIdle past ++ [e] :=
        sinceIdle_snoc (by rw [hphase]; exact fun h => by cases h)
      refine ⟨?_, fun _ a t ha ht => ?_, fun _ a t ha ht => ?_⟩
      · rw [filterMap_snoc, hbooted, ← h.nonces]
        rfl
      · rw [hsince]
        exact (hstages a t ha ht).snoc e
      · obtain ⟨_, _, -, -, -, -, -, hevidence⟩ := hw.phase.select phase
        obtain ⟨-, hobservation, hhealth⟩ := hasEvidence_eq_false.mp hevidence
        refine ⟨sinceIdle past, e, [], nonce, rfl, hsince, hstages a t ha ht, hbooted,
          fun x hx => absurd hx List.not_mem_nil, fun h => ?_, fun h => ?_⟩
        · rw [hobservation] at h
          cases h
        · rw [hhealth] at h
          cases h
    | @observed target candidate o kind phase unobserved hasObservation persisted hasTarget
        hasCandidate binds =>
      refine h.snoc hphase (hfirst (by rw [kind]; decide)) rfl rfl rfl rfl rfl ?_
      intro _ a t ha ht hattempt
      rw [hasCandidate] at ha
      rw [hasTarget] at ht
      cases ha
      cases ht
      refine hattempt.snoc (by rw [hphase, phase]; decide) (hquiet (by rw [kind]; decide)) rfl
        (fun _ => Or.inr fun nonce hnonce => ?_) Or.inl
      simp only [BootObservation.binds, Bool.and_eq_true, beq_iff_eq, hnonce, Option.some.injEq]
        at binds
      obtain ⟨⟨⟨⟨⟨⟨hn, hslot⟩, hmanifest⟩, hroot⟩, htrusted⟩, -⟩, -⟩ := binds
      exact ⟨c, o, hcommand, kind, hasObservation, persisted, hn, hslot, hmanifest, hroot, htrusted⟩
    | misobserved kind phase hasTarget hasArtifact =>
      exact story_of_idle h rfl (hfirst (by rw [kind]; decide)) rfl
    | retry kind phase few =>
      obtain ⟨_, t, _, -, ht, -, hselected, -⟩ := hw.phase.firstBoot phase
      refine story_of_stage h hphase
        (hfirst (by rcases kind with kind | kind <;> rw [kind] <;> decide)) rfl
        (fun h => by cases h) ?_
      intro _ a t' ha ht'
      have := h.trial (by rw [phase]; decide) a t' ha ht'
      rw [BootState.progress, phase] at this
      have hfive : (if some e.before.selectedSlot = e.before.targetSlot then 5 else 4) = 5 := by
        rw [ht, hselected]
        exact if_pos rfl
      change InOrder ((stages a t').take (if some e.before.selectedSlot = e.before.targetSlot
        then 5 else 4)) _
      rw [hfive]
      exact this.snoc e
    | fallback kind phase many hasTarget hasArtifact =>
      exact story_of_idle h rfl (hfirst (by rcases kind with kind | kind <;> rw [kind] <;> decide)) rfl
    | healthy kind phase observed services hasTarget hasCandidate hasNonce =>
      refine h.snoc hphase (hfirst (by rw [kind]; decide)) rfl rfl rfl rfl rfl ?_
      intro _ a t _ _ hattempt
      exact hattempt.snoc (by rw [hphase, phase]; decide) (hquiet (by rw [kind]; decide)) rfl
        Or.inl fun _ => Or.inr ⟨by rw [observed]; rfl, c, hcommand, kind, services⟩
    | commit kind phase observed healthy hasTarget hasArtifact readable =>
      exact story_of_idle h rfl (hfirst (by rw [kind]; decide)) rfl
    | checkpoint kind hasCheckpoint running later same written schema durable readable =>
      refine h.snoc hphase (hfirst (by rw [kind]; decide)) rfl rfl rfl rfl rfl ?_
      intro hp a t _ _ hattempt
      exact hattempt.snoc (by rw [hphase, hp]; decide) (hquiet (by rw [kind]; decide)) rfl Or.inl
        Or.inl
    | stable kind phase => exact story_of_idle h phase (hfirst (by rw [kind]; decide)) rfl
    | lostEarly kind phase => exact story_of_idle h rfl (hfirst (by rw [kind]; decide)) rfl
    | lostWrite kind phase hasTarget hasCandidate =>
      exact story_of_idle h rfl (hfirst (by rw [kind]; decide)) rfl
    | lostSelect kind phase => exact story_of_idle h rfl (hfirst (by rw [kind]; decide)) rfl
    | rotate kind phase hasEpoch hasOwner next other fresh =>
      exact story_of_idle h phase (hfirst (by rw [kind]; decide)) rfl

/-! ## Whole runs -/

theorem story_initial (hphase : s.phase = .idle) (hnonces : s.usedAttemptNonces = []) :
    Story [] s where
  nonces := hnonces
  trial hp := absurd hphase hp
  attempt hp := absurd (hphase.symm.trans hp) (by decide)

/-- The state before every event has its story. -/
theorem run_story {E : Enrollment} {G : TransitionGuards} (h : initialBootState E G = .ok s)
    (requests : List Request) {past rest : List Moment} {e : Moment}
    (he : events (react sha256) s requests = past ++ e :: rest) :
    e.before.Sound sha256 ∧ Story past e.before ∧ Happens sha256 e ∧ e.after.Sound sha256 := by
  have hE : Enrolled sha256 E G s := initial_enrolled h
  have hrule := events_rule (anyRequest requests)
    (I := fun past s => s.Sound sha256 ∧ Story past s) (fun past e _ hI his => ?_) [] (s := s)
    ⟨hE.sound, story_initial hE.phase hE.nonces⟩ past e rest he
  · obtain ⟨⟨hs, hstory⟩, -, his, -⟩ := hrule
    obtain ⟨hhappens, hafter⟩ := happens_of_is hs his
    exact ⟨hs, hstory, hhappens, hafter⟩
  · obtain ⟨hhappens, hafter⟩ := happens_of_is hI.1 his
    exact ⟨hafter, story_step hI.1 hI.2 hhappens⟩

/-- What a commit rests on. -/
theorem Story.evidenced {a : ReleaseArtifact} {target : SlotName} (h : Story past s)
    (hp : s.phase = .firstBoot) (ha : s.candidate = some a) (ht : s.targetSlot = some target)
    (hhealthy : s.healthAcknowledgement.isSome) (hnodup : s.usedAttemptNonces.Nodup) :
    Evidenced past a target := by
  obtain ⟨updates, booted, tail, nonce, hcurrent, hsince, hstages, hbooted, htail, -, hack⟩ :=
    (h.attempt hp a target ha ht).recorded
  obtain ⟨older, holder⟩ : sinceIdle past <:+ past := List.rtakeWhile_suffix ..
  rw [hsince] at holder
  refine ⟨older, updates, booted, tail, nonce, holder.symm, hsince, hstages, hbooted,
    fun e he hnonce => ?_, htail, hack hhealthy⟩
  -- the nonce is recorded once, at the first boot of this attempt
  have hsplit : past.filterMap Moment.firstBootNonce =
      (older ++ updates).filterMap Moment.firstBootNonce ++
        nonce :: tail.filterMap Moment.firstBootNonce := by
    rw [← holder, ← List.append_assoc, List.filterMap_append, List.filterMap_cons, hbooted]
  rw [h.nonces, hsplit] at hnodup
  exact (List.nodup_append.mp hnodup).2.2 nonce (List.mem_filterMap.mpr ⟨e, he, hnonce⟩) nonce
    List.mem_cons_self rfl

/-- The release in the active slot. -/
def BootState.activeRelease (s : BootState) : Option ReleaseArtifact :=
  (s.slot s.activeSlot).artifact

/-- **Only a commit changes the active slot or its record.** -/
theorem step_active {c : BootCommand} {G : TransitionGuards} {s' : BootState} (hs : s.Sound sha256)
    (h : Step G s c s') (hk : c.kind ≠ .commitTrial) :
    s'.activeSlot = s.activeSlot ∧ s'.slot s.activeSlot = s.slot s.activeSlot ∧
      s'.minimumReleaseSequence = s.minimumReleaseSequence := by
  have hreplaced : ∀ {target : SlotName} {a : ReleaseArtifact} {status : SlotStatus} {t : BootState},
      s.targetSlot = some target →
      t.slots = replaceSlot s ⟨(s.slot target).identity, some a, status⟩ →
      t.slot s.activeSlot = s.slot s.activeSlot := by
    intro target a status t ht hslots
    rw [slot_of_replaced (n := target) hs.wellFormed.slots hslots rfl]
    exact if_neg (Ne.symm (hs.wellFormed.phase.target_ne ht))
  cases h with
  | commit kind => exact absurd kind hk
  | written _ _ hasTarget | misobserved _ _ hasTarget | fallback _ _ _ hasTarget
  | lostWrite _ _ hasTarget => exact ⟨rfl, hreplaced hasTarget rfl, rfl⟩
  | _ => exact ⟨rfl, rfl, rfl⟩

/-- What a commit does to the active slot. -/
theorem step_commit {c : BootCommand} {G : TransitionGuards} {s' : BootState} (hs : s.Sound sha256)
    (h : Step G s c s') (hk : c.kind = .commitTrial) :
    ∃ a target, s.phase = .firstBoot ∧ s.candidate = some a ∧ s.targetSlot = some target ∧
      s.healthAcknowledgement.isSome ∧ s'.activeSlot = target ∧ s'.activeRelease = some a ∧
      a.trustedAndVerified = true ∧ s.minimumReleaseSequence < a.identity.releaseSequence ∧
      s'.minimumReleaseSequence = a.identity.releaseSequence := by
  cases h with
  | @commit target artifact o h kind phase observed healthy hasTarget hasArtifact readable =>
    obtain ⟨a, t, _, ha, ht, hne, -, hstaged, -⟩ := hs.wellFormed.phase.firstBoot phase
    cases hasTarget.symm.trans ht
    cases hasArtifact.symm.trans (holdsStaged_iff.mp hstaged).2
    obtain ⟨htrusted, hnewer, -⟩ := hs.verified (by rw [phase]; rfl) artifact ha
    have hslot : (s.committed target artifact).slot target = s.activatedRecord target artifact :=
      (slotOf_commit s.retainedRecord (s.activatedRecord target artifact) hs.wellFormed.slots hne rfl
        rfl target).trans (if_pos rfl)
    exact ⟨artifact, target, phase, ha, hasTarget, by rw [healthy]; rfl, rfl,
      congrArg SlotRecord.artifact hslot, htrusted, hnewer, rfl⟩
  | retry kind | fallback kind => rcases kind with kind | kind <;> cases kind.symm.trans hk
  | beginDownload kind | downloadComplete kind | verifyTampered kind | verifyRefused kind
  | verified kind | written kind | selected kind | firstBoot kind | observed kind
  | misobserved kind | healthy kind | checkpoint kind | stable kind | lostEarly kind
  | lostWrite kind | lostSelect kind | rotate kind => cases kind.symm.trans hk

/-- **The active release changes only through an evidenced trial.** -/
theorem trial_evidenced (sha256 : Bytes → Vector UInt8 32) (E : Enrollment) (G : TransitionGuards)
    (s : BootState) (h : initialBootState E G = .ok s) (requests : List Request) :
    (∀ t ∈ s :: (events (react sha256) s requests).map Event.after,
      ∃ a, t.activeRelease = some a ∧ t.minimumReleaseSequence = a.identity.releaseSequence) ∧
    (s :: (events (react sha256) s requests).map Event.after).Pairwise
      (fun t t' => t.minimumReleaseSequence ≤ t'.minimumReleaseSequence) ∧
    ∀ past e rest, events (react sha256) s requests = past ++ e :: rest →
      ((e.after.activeSlot = e.before.activeSlot ∧
          e.after.slot e.after.activeSlot = e.before.slot e.before.activeSlot) ∨
        Moment.Did .commitTrial e) ∧
      (Moment.Did .commitTrial e → ∃ a old, e.after.activeRelease = some a ∧
        a.trustedAndVerified = true ∧ e.before.activeRelease = some old ∧
        old.identity.releaseSequence < a.identity.releaseSequence ∧
        Evidenced past a e.after.activeSlot) := by
  have hfloor : ∀ t : BootState, t.Sound sha256 → ∃ a, t.activeRelease = some a ∧
      t.minimumReleaseSequence = a.identity.releaseSequence := fun t ht => by
    obtain ⟨a, ha⟩ := ht.wellFormed.active
    exact ⟨a, ha, ht.floor a ha⟩
  refine ⟨fun t ht => ?_, ?_, fun past e rest he => ?_⟩
  · rcases List.mem_cons.mp ht with rfl | ht
    · exact hfloor _ (initial_enrolled h).sound
    · obtain ⟨e, he, rfl⟩ := List.mem_map.mp ht
      exact hfloor _ (run_happens h requests e he).2.2
  · refine events_chain (anyRequest requests) (I := BootState.Sound sha256)
      (R := fun t t' => t.minimumReleaseSequence ≤ t'.minimumReleaseSequence)
      (fun _ _ _ => le_trans) (fun e _ hs his => ?_) (initial_enrolled h).sound
    obtain ⟨hhappens, hafter⟩ := happens_of_is hs his
    refine ⟨?_, hafter⟩
    cases hhappens with
    | nothing _ hsame => rw [hsame]
    | @applied c changed outcome _ _ hstep hafter =>
      have hsame : e.after.minimumReleaseSequence = changed.minimumReleaseSequence := by
        rw [hafter]
        rfl
      rw [hsame]
      by_cases hk : c.kind = .commitTrial
      · obtain ⟨a, _, -, -, -, -, -, -, -, hnewer, hnew⟩ := step_commit hs hstep hk
        rw [hnew]
        exact hnewer.le
      · exact (step_active hs hstep hk).2.2.symm.le
  · obtain ⟨hs, hstory, hhappens, hafter⟩ := run_story h requests he
    cases hhappens with
    | nothing hnone hsame =>
      refine ⟨Or.inl (by rw [hsame]; exact ⟨rfl, rfl⟩), ?_⟩
      rintro ⟨c, hc, -⟩
      rw [hnone] at hc
      cases hc
    | @applied c changed outcome hcommand _ hstep heq =>
      have hactive : e.after.activeSlot = changed.activeSlot ∧ ∀ n, e.after.slot n = changed.slot n := by
        rw [heq]
        exact ⟨rfl, fun _ => rfl⟩
      refine ⟨?_, ?_⟩
      · by_cases hk : c.kind = .commitTrial
        · exact Or.inr ⟨c, hcommand, hk⟩
        · obtain ⟨hsame, hslot, -⟩ := step_active hs hstep hk
          rw [hactive.1, hactive.2, hsame]
          exact Or.inl ⟨rfl, hslot⟩
      · rintro ⟨c', hc', hk⟩
        cases hcommand.symm.trans hc'
        obtain ⟨a, target, hp, ha, ht, hhealthy, hnew, hrelease, htrusted, hnewer, -⟩ :=
          step_commit hs hstep hk
        obtain ⟨old, hold, hfloor⟩ := hfloor e.before hs
        refine ⟨a, old, ?_, htrusted, hold, by rw [← hfloor]; exact hnewer, ?_⟩
        · rw [BootState.activeRelease, hactive.1, hactive.2]
          exact hrelease
        · rw [hactive.1, hnew]
          exact hstory.evidenced hp ha ht hhealthy hs.wellFormed.nonces.2

theorem trial_evidenced_enrolled : ∃ s, initialBootState .sample .sample = .ok s ∧
    ∀ (sha256 : Bytes → Vector UInt8 32) (requests : List Request),
      (s :: (events (react sha256) s requests).map Event.after).Pairwise
        fun t t' => t.minimumReleaseSequence ≤ t'.minimumReleaseSequence := by
  obtain ⟨s, hs⟩ := Enrollment.sample_fine.succeeds
  exact ⟨s, hs, fun sha256 requests =>
    (trial_evidenced sha256 .sample .sample s hs requests).2.1⟩

end LumaOS.Boot
