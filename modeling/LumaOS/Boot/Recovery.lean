import LumaOS.Boot.History

/-!
# Boot control recovers

* `never_wedged`: in every reachable state a well-formed command is applied, replayed or refused
  with a documented refusal; no rebuilt value is rejected. A power loss is reconciled in every phase
  unless the retained release cannot read the data. A candidate fails at most three boot attempts
  before it is rejected and the active slot is selected again (`Tally`).
* `fallback_possible`: with one pure data oracle, the active release can always read the data, so
  the fallback is never refused (`Fallback`).
-/

namespace LumaOS.Boot

open LumaOS.Base LumaOS.Text LumaOS.Json

variable {sha256 : Bytes → Vector UInt8 32} {s s' : BootState} {past : List Moment} {e : Moment}
  {c : BootCommand} {G : TransitionGuards}

/-! ## Failed attempts -/

/-- The event records the failure of a boot attempt. -/
def Moment.failed (e : Moment) : Bool :=
  e.before.phase == .firstBoot && (Moment.applied e).any fun c =>
    c.kind == .trialFailure || c.kind == .reconcilePowerLoss

/-- The failures of the candidate so far. -/
def failures (past : List Moment) : Nat := (sinceIdle past).countP Moment.failed

/-- The state counts the failures since the last idle state. -/
structure Tally (past : List Moment) (s : BootState) : Prop where
  idle : s.phase = .idle → sinceIdle past = []
  counted : s.phase ≠ .idle → s.trialFailures = failures past

theorem sinceIdle_idle (h : e.after.phase = .idle) : sinceIdle (past ++ [e]) = [] :=
  List.rtakeWhile_concat_neg _ _ e (by simp [h])

theorem failures_snoc (h : e.after.phase ≠ .idle) :
    failures (past ++ [e]) = failures past + if Moment.failed e then 1 else 0 := by
  rw [failures, sinceIdle_snoc h, List.countP_append, List.countP_singleton, failures]

/-- A failed attempt is retried or, the third time, rejected. -/
theorem step_failed (hs : s.Sound sha256) (h : Step G s c s') (hp : s.phase = .firstBoot)
    (hk : c.kind = .trialFailure ∨ c.kind = .reconcilePowerLoss) :
    (s.trialFailures < 2 ∧ s' = s.retried) ∨
      (s.trialFailures = 2 ∧ ∃ a target, s.candidate = some a ∧ s.targetSlot = some target ∧
        s' = s.fallenBack target a 3) := by
  have hle := hs.failures (by rw [hp]; decide)
  have hno : ∀ kind, c.kind = kind → kind ≠ .trialFailure → kind ≠ .reconcilePowerLoss → False := by
    rintro kind rfl h1 h2
    exact hk.elim h1 h2
  cases h with
  | retry kind phase few =>
    have few : s.trialFailures + 1 < 3 := few
    exact Or.inl ⟨by omega, rfl⟩
  | @fallback target artifact kind phase many hasTarget hasArtifact =>
    have many : 3 ≤ s.trialFailures + 1 := many
    obtain ⟨a, t, _, ha, ht, -, -, hstaged, -⟩ := hs.wellFormed.phase.firstBoot hp
    cases hasTarget.symm.trans ht
    cases hasArtifact.symm.trans (holdsStaged_iff.mp hstaged).2
    have htwo : s.trialFailures = 2 := by omega
    exact Or.inr ⟨htwo, artifact, target, ha, hasTarget, by rw [htwo]; rfl⟩
  | stable _ phase => cases hp.symm.trans phase
  | lostEarly _ phase => rcases phase with phase | phase <;> cases hp.symm.trans phase
  | lostWrite _ phase | lostSelect _ phase => cases hp.symm.trans phase
  | beginDownload kind | downloadComplete kind | verifyTampered kind | verifyRefused kind
  | verified kind | written kind | selected kind | firstBoot kind | observed kind
  | misobserved kind | healthy kind | commit kind | checkpoint kind | rotate kind =>
    exact (hno _ kind (by decide) (by decide)).elim

/-- Otherwise the count is kept, starts at zero, or the update ends. -/
theorem step_counted (h : Step G s c s')
    (hk : ¬(s.phase = .firstBoot ∧ (c.kind = .trialFailure ∨ c.kind = .reconcilePowerLoss))) :
    s'.phase = .idle ∨ (s.phase = .idle ∧ s'.trialFailures = 0) ∨
      (s.phase ≠ .idle ∧ s'.trialFailures = s.trialFailures) := by
  cases h with
  | beginDownload _ phase => exact Or.inr (Or.inl ⟨phase, rfl⟩)
  | retry kind phase | fallback kind phase => exact absurd ⟨phase, kind⟩ hk
  | checkpoint =>
    by_cases hp : s.phase = .idle
    · exact Or.inl hp
    · exact Or.inr (Or.inr ⟨hp, rfl⟩)
  | downloadComplete _ phase | verified _ phase | written _ phase | selected _ phase
  | firstBoot _ phase | observed _ phase | healthy _ phase =>
    exact Or.inr (Or.inr ⟨by rw [phase]; decide, rfl⟩)
  | stable _ phase | rotate _ phase => exact Or.inl phase
  | _ => exact Or.inl rfl

theorem tally_step (hs : e.before.Sound sha256) (h : Tally past e.before)
    (hhappens : Happens sha256 e) : Tally (past ++ [e]) e.after := by
  refine ⟨sinceIdle_idle, fun hafter => ?_⟩
  rw [failures_snoc hafter]
  cases hhappens with
  | nothing hnone hsame =>
    have hfailed : Moment.failed e = false := by simp [Moment.failed, hnone]
    rw [hsame] at hafter ⊢
    simp [hfailed, h.counted hafter]
  | @applied c changed outcome hcommand _ hstep heq =>
    have hchanged : e.after.phase = changed.phase ∧ e.after.trialFailures = changed.trialFailures := by
      rw [heq]
      exact ⟨rfl, rfl⟩
    rw [hchanged.1] at hafter
    rw [hchanged.2]
    by_cases hk : e.before.phase = .firstBoot ∧
        (c.kind = .trialFailure ∨ c.kind = .reconcilePowerLoss)
    · have hfailed : Moment.failed e = true := by simp [Moment.failed, hcommand, hk.1, hk.2]
      rcases step_failed hs hstep hk.1 hk.2 with ⟨-, rfl⟩ | ⟨-, _, _, -, -, rfl⟩
      · simp [hfailed, BootState.retried, h.counted (by rw [hk.1]; decide)]
      · exact absurd rfl hafter
    · have hfailed : Moment.failed e = false := by
        simp only [Moment.failed, hcommand, Option.any_some, Bool.and_eq_false_iff,
          beq_eq_false_iff_ne, Bool.or_eq_false_iff]
        tauto
      rcases step_counted hstep hk with hidle | ⟨hidle, hzero⟩ | ⟨hbusy, hsame⟩
      · exact absurd hidle hafter
      · simp [hfailed, hzero, failures, h.idle hidle]
      · simp [hfailed, hsame, h.counted hbusy]

/-- The states of a run. -/
def reached (sha256 : Bytes → Vector UInt8 32) (s : BootState) (requests : List Request) :
    List BootState := s :: (events (react sha256) s requests).map Event.after

theorem reached_sound {E : Enrollment} (h : initialBootState E G = .ok s) (requests : List Request) :
    ∀ t ∈ reached sha256 s requests, t.Sound sha256 := by
  intro t ht
  rcases List.mem_cons.mp ht with rfl | ht
  · exact (initial_enrolled h).sound
  · obtain ⟨e, he, rfl⟩ := List.mem_map.mp ht
    exact (run_happens h requests e he).2.2

theorem run_tally {E : Enrollment} (h : initialBootState E G = .ok s) (requests : List Request)
    {rest : List Moment} (he : events (react sha256) s requests = past ++ e :: rest) :
    e.before.Sound sha256 ∧ Tally past e.before ∧ Happens sha256 e ∧ Tally (past ++ [e]) e.after ∧
      e.after.Sound sha256 := by
  have hE : Enrolled sha256 E G s := initial_enrolled h
  have hrule := events_rule (anyRequest requests)
    (I := fun past s => s.Sound sha256 ∧ Tally past s) (fun past e _ hI his => ?_) [] (s := s)
    ⟨hE.sound, fun _ => rfl, fun hp => absurd hE.phase hp⟩ past e rest he
  · obtain ⟨⟨hs, htally⟩, -, his, hafter, htally'⟩ := hrule
    exact ⟨hs, htally, (happens_of_is hs his).1, htally', hafter⟩
  · obtain ⟨hhappens, hafter⟩ := happens_of_is hI.1 his
    exact ⟨hafter, tally_step hI.1 hI.2 hhappens⟩

/-! ## No wedge -/

/-- The durable state passes the checks against the guards. -/
structure Trusted (sha256 : Bytes → Vector UInt8 32) (G : TransitionGuards) (s : BootState) :
    Prop where
  authentic : G.stateAuthenticator.verify s.authenticatedBytes s.authenticationTag = true
  current : G.monotonicAnchor.isCurrent s.controllerId s.generation
    (s.commitmentSha256 sha256) = true

/-- The command is new to the ledger and passes the fence and generation checks. -/
structure Admitted (s : BootState) (c : BootCommand) : Prop where
  unused : c.operationId ∉ s.operations.map OperationRecord.operationId
  fence : c.fenceEpoch = s.fenceEpoch ∧ c.fenceOwnerToken = s.fenceOwnerToken
  generation : c.expectedGeneration = s.generation

/-- What a command meets when the authenticator works and the generation has room. -/
theorem trusted_gives (hs : s.Sound sha256) (hc : c.Fine) (h : Trusted sha256 G s)
    (hroom : s.generation + 1 < 2 ^ 63) (hseals : ∀ payload, Seals G payload) :
    Gives (fun e => (e.kind = .idempotencyConflict ∧
          c.operationId ∈ s.operations.map OperationRecord.operationId) ∨
        (e.kind.documented = true ∧ (Admitted s c → Refusal G s c e)))
      (fun r => c.operationId ∈ s.operations.map OperationRecord.operationId ∨
        (Applied sha256 G s c r ∧ r.state.Sound sha256)) (transition sha256 s c G) := by
  have hgives := transition_gives (G := G) hs hc
  cases ht : transition sha256 s c G with
  | ok r =>
    rw [ht] at hgives
    rcases hgives with ⟨record, hmem, hid, -⟩ | happlied
    · exact Or.inl (List.mem_map.mpr ⟨record, hmem, hid⟩)
    · exact Or.inr happlied
  | error e =>
    rw [ht] at hgives
    cases hgives with
    | unauthentic _ forged => exact absurd (h.authentic.symm.trans forged) (by decide)
    | stale _ rolledBack => exact absurd (h.current.symm.trans rolledBack) (by decide)
    | conflict kind used =>
      obtain ⟨record, hmem, hid, -⟩ := used
      exact Or.inl ⟨kind, List.mem_map.mpr ⟨record, hmem, hid⟩⟩
    | fenced kind other => exact Or.inr ⟨by rw [kind]; rfl, fun h => absurd h.fence other⟩
    | outdated kind other => exact Or.inr ⟨by rw [kind]; rfl, fun h => absurd h.generation other⟩
    | refused refusal => exact Or.inr ⟨refusal.documented, fun _ => refusal⟩
    | exhausted _ full => omega
    | unsealable _ broken =>
      obtain ⟨payload, hbroken⟩ := broken
      exact absurd (hseals payload) hbroken

/-- What reconciling a power loss leaves. -/
theorem step_reconciled (hs : s.Sound sha256) (h : Step G s c s')
    (hk : c.kind = .reconcilePowerLoss) :
    (s'.phase = .idle ∧ s'.selectedSlot = s'.activeSlot) ∨
      (s'.phase = .select ∧ s'.trialFailures = s.trialFailures + 1) := by
  cases h with
  | retry => exact Or.inr ⟨rfl, rfl⟩
  | stable _ phase => exact Or.inl ⟨phase, (hs.wellFormed.phase.idle phase).2.2.1⟩
  | fallback | lostEarly | lostWrite | lostSelect => exact Or.inl ⟨rfl, rfl⟩
  | beginDownload kind | downloadComplete kind | verifyTampered kind | verifyRefused kind
  | verified kind | written kind | selected kind | firstBoot kind | observed kind
  | misobserved kind | healthy kind | commit kind | checkpoint kind | rotate kind =>
    cases kind.symm.trans hk

/-- **Boot control never wedges.** In every reachable state a command on a trusted state is applied,
replayed or met with a documented refusal, an operation id reused for another command apart; a power
loss is reconciled unless the data cannot be read; and the third failed attempt of a candidate
rejects it. -/
theorem never_wedged (sha256 : Bytes → Vector UInt8 32) (E : Enrollment) (G : TransitionGuards)
    (s : BootState) (h : initialBootState E G = .ok s) (requests : List Request) :
    (∀ t ∈ reached sha256 s requests, ∀ q : Request, ∀ c, q.command.postInit = .ok c →
      Trusted sha256 q.guards t → t.generation + 1 < 2 ^ 63 →
      (∀ payload, Seals q.guards payload) →
        (∀ e, transition sha256 t c q.guards = .error e → e.kind.documented = true ∨
          (e.kind = .idempotencyConflict ∧
            c.operationId ∈ t.operations.map OperationRecord.operationId)) ∧
        (c.kind = .reconcilePowerLoss → Admitted t c →
          (∀ e, transition sha256 t c q.guards = .error e →
            e.kind = .fallbackReadabilityRejected ∧ ∃ a, t.activeRelease = some a ∧
              q.guards.dataCheckpointOracle.isReadable t.dataCheckpoint a.identity = false) ∧
          ∀ r, transition sha256 t c q.guards = .ok r →
            (r.state.phase = .idle ∧ r.state.selectedSlot = r.state.activeSlot) ∨
              (r.state.phase = .select ∧ r.state.trialFailures = t.trialFailures + 1))) ∧
    ∀ past e rest, events (react sha256) s requests = past ++ e :: rest →
      failures past < 3 ∧ (Moment.failed e = true → failures past = 2 →
        e.after.phase = .idle ∧ e.after.selectedSlot = e.after.activeSlot ∧
        ∃ a target, e.before.candidate = some a ∧ e.before.targetSlot = some target ∧
          (e.after.slot target).artifact = some a ∧ (e.after.slot target).status = .rejected) := by
  refine ⟨fun t ht q c hc htrusted hroom hseals => ?_, fun past e rest he => ?_⟩
  · have hs := reached_sound h requests t ht
    have hgives := trusted_gives hs (postInit_fine hc) htrusted hroom hseals
    refine ⟨fun e htr => ?_, fun hk hadmitted => ⟨fun e htr => ?_, fun r htr => ?_⟩⟩
    · rw [htr] at hgives
      rcases hgives with hconflict | ⟨hdocumented, -⟩
      · exact Or.inr hconflict
      · exact Or.inl hdocumented
    · rw [htr] at hgives
      rcases hgives with ⟨-, hused⟩ | ⟨-, hrefusal⟩
      · exact absurd hused hadmitted.unused
      · have hkind := (hrefusal hadmitted).reconciles hk
        exact ⟨hkind, (hrefusal hadmitted).unreadable hkind (by rw [hk]; decide)⟩
    · rw [htr] at hgives
      rcases hgives with hused | ⟨happlied, -⟩
      · exact absurd hused hadmitted.unused
      · obtain ⟨changed, outcome, hstep, hstate, -⟩ := happlied.step
        have hleft := step_reconciled hs hstep hk
        rw [hstate]
        exact hleft
  · obtain ⟨hs, htally, hhappens, -, -⟩ := run_tally h requests he
    have hcount : failures past < 3 := by
      by_cases hp : e.before.phase = .idle
      · rw [failures, htally.idle hp]
        decide
      · have := htally.counted hp
        have := hs.failures hp
        omega
    refine ⟨hcount, fun hfailed htwo => ?_⟩
    simp only [Moment.failed, Bool.and_eq_true, beq_iff_eq, Option.any_eq_true,
      Bool.or_eq_true] at hfailed
    obtain ⟨hp, c, hc, hk⟩ := hfailed
    cases hhappens with
    | nothing hnone => cases hnone.symm.trans hc
    | @applied c' changed outcome hcommand _ hstep heq =>
      cases hcommand.symm.trans hc
      have hcounted := htally.counted (by rw [hp]; decide)
      rcases step_failed hs hstep hp hk with ⟨hlt, -⟩ | ⟨-, a, target, ha, ht, rfl⟩
      · omega
      · rw [heq]
        refine ⟨rfl, rfl, a, target, ha, ht, ?_⟩
        have hslot := slot_of_replaced (n := target) (t := e.before.fallenBack target a 3)
          hs.wellFormed.slots rfl rfl target
        rw [if_pos rfl] at hslot
        exact ⟨congrArg SlotRecord.artifact hslot, congrArg SlotRecord.status hslot⟩

theorem never_wedged_enrolled : ∃ s, initialBootState .sample .sample = .ok s ∧
    ∀ (sha256 : Bytes → Vector UInt8 32) (requests : List Request) past e rest,
      events (react sha256) s requests = past ++ e :: rest → failures past < 3 := by
  obtain ⟨s, hs⟩ := Enrollment.sample_fine.succeeds
  exact ⟨s, hs, fun sha256 requests past e rest he =>
    ((never_wedged sha256 .sample .sample s hs requests).2 past e rest he).1⟩

/-! ## The data stays readable -/

/-- A release can read every durable checkpoint that it wrote. -/
def ReadsOwn (D : DataCheckpointOracle) : Prop :=
  ∀ checkpoint release, D.verifyDurable checkpoint = true →
    checkpoint.writerReleaseManifestSha256 = release.manifestSha256 →
    D.isReadable checkpoint release = true

/-- The active release can read the acknowledged data. -/
def Fallback (D : DataCheckpointOracle) (s : BootState) : Prop :=
  ∀ a, s.activeRelease = some a → D.isReadable s.dataCheckpoint a.identity = true

/-- The checkpoint does not go back, and one generation has one digest. -/
def Follows (d d' : DataCheckpoint) : Prop :=
  d.generation ≤ d'.generation ∧ (d.generation = d'.generation → d.sha256 = d'.sha256)

theorem Follows.trans {d d' d'' : DataCheckpoint} (h : Follows d d') (h' : Follows d' d'') :
    Follows d d'' := by
  refine ⟨h.1.trans h'.1, fun heq => ?_⟩
  have hmid : d.generation = d'.generation := le_antisymm h.1 (heq ▸ h'.1)
  exact (h.2 hmid).trans (h'.2 (hmid.symm.trans heq))

theorem step_follows (h : Step G s c s') : Follows s.dataCheckpoint s'.dataCheckpoint := by
  cases h with
  | checkpoint _ _ _ later same => exact ⟨later, fun heq => (same heq.symm).symm⟩
  | _ => exact ⟨le_refl _, fun _ => rfl⟩

/-- Only a commit changes the active release and only an acknowledgement the data; both check what
the other relies on. -/
theorem step_fallback (hs : s.Sound sha256) (hown : ReadsOwn G.dataCheckpointOracle)
    (h : Step G s c s') (hf : Fallback G.dataCheckpointOracle s) :
    Fallback G.dataCheckpointOracle s' := by
  by_cases hk : c.kind = .commitTrial
  · cases h with
    | @commit target artifact o h kind phase observed healthy hasTarget hasArtifact readable =>
      intro a ha
      have hne := hs.wellFormed.phase.target_ne hasTarget
      have hslot : (s.committed target artifact).slot target = s.activatedRecord target artifact :=
        (slotOf_commit s.retainedRecord (s.activatedRecord target artifact) hs.wellFormed.slots hne
          rfl rfl target).trans (if_pos rfl)
      cases (congrArg SlotRecord.artifact hslot).symm.trans ha
      exact readable
    | retry kind | fallback kind => rcases kind with kind | kind <;> cases kind.symm.trans hk
    | beginDownload kind | downloadComplete kind | verifyTampered kind | verifyRefused kind
    | verified kind | written kind | selected kind | firstBoot kind | observed kind
    | misobserved kind | healthy kind | checkpoint kind | stable kind | lostEarly kind
    | lostWrite kind | lostSelect kind | rotate kind => cases kind.symm.trans hk
  · obtain ⟨hactive, hslot, -⟩ := step_active hs h hk
    intro a ha
    rw [BootState.activeRelease, hactive, hslot] at ha
    cases h with
    | @checkpoint proposed writer kind hasCheckpoint running later same written schema durable
        readable =>
      obtain ⟨-, x, hx, rfl⟩ | ⟨hp, -⟩ := observedRunningRelease_eq_ok running
      · cases ha.symm.trans hx
        exact hown proposed a.identity durable written
      · exact readable hp a ha
    | _ => exact hf a ha

/-- **The fallback stays possible.** With one pure data oracle under which a release reads its own
data, the active release of every reachable state can read the acknowledged checkpoint. -/
theorem fallback_possible (sha256 : Bytes → Vector UInt8 32) (E : Enrollment) (G : TransitionGuards)
    (s : BootState) (h : initialBootState E G = .ok s) (hown : ReadsOwn G.dataCheckpointOracle)
    (requests : List Request)
    (hpure : ∀ q ∈ requests, q.guards.dataCheckpointOracle = G.dataCheckpointOracle) :
    (∀ t ∈ reached sha256 s requests, (∃ a, t.activeRelease = some a ∧
        G.dataCheckpointOracle.isReadable t.dataCheckpoint a.identity = true ∧
        t.dataCheckpoint.schemaId = a.identity.dataCompatibilityId) ∧
      (t.phase.verified = true → ∃ a, t.candidate = some a ∧
        t.dataCheckpoint.schemaId = a.identity.dataCompatibilityId)) ∧
    (reached sha256 s requests).Pairwise (fun t t' => Follows t.dataCheckpoint t'.dataCheckpoint) ∧
    ∀ t ∈ reached sha256 s requests, ∀ q : Request, ∀ c, q.command.postInit = .ok c →
      q.guards.dataCheckpointOracle = G.dataCheckpointOracle →
      (c.kind = .trialFailure ∨ c.kind = .reconcilePowerLoss ∨ c.kind = .recordBootObservation) →
      ∀ e, transition sha256 t c q.guards = .error e → e.kind ≠ .fallbackReadabilityRejected := by
  have hE : Enrolled sha256 E G s := initial_enrolled h
  have hstep : ∀ e : Moment, e.op.guards.dataCheckpointOracle = G.dataCheckpointOracle →
      e.before.Sound sha256 ∧ Fallback G.dataCheckpointOracle e.before → e.Is (react sha256) →
      Follows e.before.dataCheckpoint e.after.dataCheckpoint ∧
        e.after.Sound sha256 ∧ Fallback G.dataCheckpointOracle e.after := by
    rintro e horacle ⟨hs, hf⟩ his
    obtain ⟨hhappens, hafter⟩ := happens_of_is hs his
    cases hhappens with
    | nothing _ hsame =>
      rw [hsame] at hafter ⊢
      exact ⟨⟨le_refl _, fun _ => rfl⟩, hafter, hf⟩
    | @applied c changed outcome _ _ hstep heq =>
      rw [← horacle] at hf hown ⊢
      have hnext := step_fallback hs hown hstep hf
      have hfollows := step_follows hstep
      rw [heq] at hafter ⊢
      exact ⟨hfollows, hafter, hnext⟩
  have hinitial : s.Sound sha256 ∧ Fallback G.dataCheckpointOracle s :=
    ⟨hE.sound, fun a ha => by
      cases hE.active.symm.trans ha
      exact hE.readable⟩
  have hall : ∀ t ∈ reached sha256 s requests,
      t.Sound sha256 ∧ Fallback G.dataCheckpointOracle t := by
    intro t ht
    rcases List.mem_cons.mp ht with rfl | ht
    · exact hinitial
    · obtain ⟨e, he, rfl⟩ := List.mem_map.mp ht
      exact (events_invariant hpure
        (I := fun t => t.Sound sha256 ∧ Fallback G.dataCheckpointOracle t)
        (fun e hq hI his => (hstep e hq hI his).2) hinitial e he).2.2.2
  refine ⟨fun t ht => ?_, ?_, fun t ht q c hc horacle hk e he hkind => ?_⟩
  · obtain ⟨hs, hf⟩ := hall t ht
    obtain ⟨a, ha⟩ := hs.wellFormed.active
    refine ⟨⟨a, ha, hf a ha, hs.schema a ha⟩, fun hp => ?_⟩
    obtain ⟨candidate, hcandidate⟩ := hs.wellFormed.phase.candidate hp
    exact ⟨candidate, hcandidate, (hs.verified hp candidate hcandidate).2.2.symm⟩
  · exact events_chain hpure (I := fun t => t.Sound sha256 ∧ Fallback G.dataCheckpointOracle t)
      (R := fun t t' => Follows t.dataCheckpoint t'.dataCheckpoint) (fun _ _ _ => Follows.trans)
      (fun e hq hI his => hstep e hq hI his) hinitial
  · obtain ⟨hs, hf⟩ := hall t ht
    have hgives := transition_gives (G := q.guards) hs (postInit_fine hc)
    rw [he] at hgives
    cases hgives with
    | unauthentic kind | stale kind | conflict kind | fenced kind | outdated kind
    | exhausted kind => cases hkind.symm.trans kind
    | unsealable kind => rcases kind with kind | kind <;> cases hkind.symm.trans kind
    | refused refusal =>
      obtain ⟨a, ha, hread⟩ := refusal.unreadable hkind
        (by rcases hk with hk | hk | hk <;> rw [hk] <;> decide)
      rw [horacle, hf a ha] at hread
      cases hread

theorem fallback_possible_enrolled : ∃ s, initialBootState .sample .sample = .ok s ∧
    ∀ (sha256 : Bytes → Vector UInt8 32) (requests : List Request),
      let guarded := requests.map fun q => { q with guards := .sample }
      (∀ t ∈ reached sha256 s guarded, ∃ a, t.activeRelease = some a ∧
        TransitionGuards.sample.dataCheckpointOracle.isReadable t.dataCheckpoint a.identity = true) ∧
      (reached sha256 s guarded).Pairwise
        (fun t t' => Follows t.dataCheckpoint t'.dataCheckpoint) := by
  obtain ⟨s, hs⟩ := Enrollment.sample_fine.succeeds
  refine ⟨s, hs, fun sha256 requests => ?_⟩
  have hpure : ∀ q ∈ requests.map fun q => { q with guards := .sample },
      q.guards.dataCheckpointOracle = TransitionGuards.sample.dataCheckpointOracle := by
    intro q hq
    obtain ⟨_, -, rfl⟩ := List.mem_map.mp hq
    rfl
  obtain ⟨hreads, hfollows, -⟩ :=
    fallback_possible sha256 .sample .sample s hs (fun _ _ _ _ => rfl) _ hpure
  refine ⟨fun t ht => ?_, hfollows⟩
  obtain ⟨⟨a, hactive, hreadable, -⟩, -⟩ := hreads t ht
  exact ⟨a, hactive, hreadable⟩

end LumaOS.Boot
