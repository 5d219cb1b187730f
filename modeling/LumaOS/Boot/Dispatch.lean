import LumaOS.Boot.Steps

/-!
# No rebuilt value is rejected

A well-formed command in a sound state does one of the steps of `Step`, or raises one of the
documented refusals (`dispatch_gives`). `BootControlValidationError` is not among them: every state,
slot, record, tamper observation and acknowledgement that `_dispatch` builds passes its own check.
`transition_gives` says the same of `transition`, with the ledger and the seal.
-/

namespace LumaOS.Boot

open LumaOS.Base LumaOS.Text LumaOS.Json

variable {sha256 : Bytes → Vector UInt8 32} {s s' : BootState} {c : BootCommand}
  {G : TransitionGuards}

/-! ## Refusals -/

/-- The refusals that a command in order can meet. -/
def ErrorKind.documented : ErrorKind → Bool
  | .invalidTransition | .staleGeneration | .fenceRejected | .tamperRejected
  | .externalEvidenceRejected | .fallbackReadabilityRejected => true
  | _ => false

/-- What `_dispatch` raises. -/
structure Refusal (G : TransitionGuards) (s : BootState) (c : BootCommand) (e : Raised) : Prop where
  documented : e.kind.documented = true
  /-- The retained release cannot read the data, unless it is the proposed data it cannot read. -/
  unreadable : e.kind = .fallbackReadabilityRejected → c.kind ≠ .ackDataCheckpoint →
    ∃ a, (s.slot s.activeSlot).artifact = some a ∧
      G.dataCheckpointOracle.isReadable s.dataCheckpoint a.identity = false
  /-- A power loss is reconciled unless the retained release cannot read the data. -/
  reconciles : c.kind = .reconcilePowerLoss → e.kind = .fallbackReadabilityRejected

theorem refusal_of_kind {kind : ErrorKind} {message : String} (hk : c.kind ≠ .reconcilePowerLoss)
    (hkind : (kind.documented && kind != .fallbackReadabilityRejected) = true) :
    Refusal G s c ⟨kind, message⟩ := by
  simp only [Bool.and_eq_true, bne_iff_ne] at hkind
  exact ⟨hkind.1, fun h => absurd h hkind.2, fun h => absurd h hk⟩

/-- What `_dispatch` gives for a command: a step with an outcome, or a refusal. -/
def Dispatched (G : TransitionGuards) (s : BootState) (c : BootCommand) :
    Except Raised (BootState × String) → Prop :=
  Gives (Refusal G s c) fun result => Step G s c result.1 ∧ isText 256 result.2 = true

theorem gives_requirePhase {β : Type} {R : β → Prop} {phase : UpdatePhase}
    {f : Unit → Except Raised β} (hk : c.kind ≠ .reconcilePowerLoss)
    (hf : s.phase = phase → Gives (Refusal G s c) R (f ())) :
    Gives (Refusal G s c) R (s.requirePhase phase >>= f) :=
  gives_bind_raiseIf (fun _ => refusal_of_kind hk rfl)
    fun h => hf (by rwa [bne_eq_false_iff_eq] at h)

theorem present_eq_ok {α : Type} {value : Option α} {a : α} {message : String}
    (h : value = some a) : Boot.present value message = .ok a := by
  subst h
  rfl

theorem updateFields_eq_ok {target : SlotName} {candidate : ReleaseArtifact}
    (ht : s.targetSlot = some target) (hc : s.candidate = some candidate) :
    s.updateFields = .ok (target, candidate) := by
  rw [BootState.updateFields, ht, hc]

theorem slotRecord_build {i : SlotIdentity} {a : Option ReleaseArtifact} {status : SlotStatus}
    (h : SlotRecord.check ⟨i, a, status⟩ = .ok ()) :
    SlotRecord.build i a status = .ok ⟨i, a, status⟩ := by
  rw [SlotRecord.build, h]
  rfl

theorem build_of_step (h : Step G s c s') (hs : s.Sound sha256) (hc : c.Fine) :
    s'.build = .ok s' := build_eq_ok.mpr ⟨step_wellFormed h hs hc, rfl⟩

theorem ensureFallbackReadable_gives (hs : s.Sound sha256) :
    Gives (Refusal G s c) (fun _ => True) (s.ensureFallbackReadable G) := by
  obtain ⟨a, ha⟩ := hs.wellFormed.active
  refine gives_bind_ok (present_eq_ok ha) ?_
  unfold raiseIf
  split
  · rename_i h
    exact ⟨rfl, fun _ _ => ⟨a, ha, by simpa using h⟩, fun _ => rfl⟩
  · exact trivial

theorem requireObservation_gives (hk : c.kind ≠ .reconcilePowerLoss) :
    Gives (Refusal G s c) (fun o => s.bootObservation = some o) s.requireObservation := by
  unfold BootState.requireObservation
  split
  · assumption
  · exact refusal_of_kind hk rfl

theorem requireEvidence_gives (hk : c.kind ≠ .reconcilePowerLoss) :
    Gives (Refusal G s c)
      (fun evidence => s.bootObservation = some evidence.1 ∧
        s.healthAcknowledgement = some evidence.2) s.requireEvidence := by
  unfold BootState.requireEvidence
  split
  · exact ⟨by assumption, by assumption⟩
  · exact refusal_of_kind hk rfl

theorem observedRunningRelease_gives (hs : s.Sound sha256) (hk : c.kind ≠ .reconcilePowerLoss) :
    Gives (Refusal G s c) (fun writer => s.observedRunningRelease = .ok writer)
      s.observedRunningRelease := by
  obtain ⟨a, ha⟩ := hs.wellFormed.active
  cases h : s.observedRunningRelease with
  | ok writer => exact rfl
  | error e =>
    unfold BootState.observedRunningRelease at h
    split at h
    · split at h
      · cases h
      · cases h
        exact refusal_of_kind hk rfl
    · rw [BootState.slotArtifact, present_eq_ok ha] at h
      cases h

/-- The check of a checkpoint that a trial proposes. -/
theorem trialReadable_gives {proposed : DataCheckpoint} {message : String} (hs : s.Sound sha256)
    (hk : c.kind = .ackDataCheckpoint) :
    Gives (Refusal G s c) (fun _ => s.phase = .firstBoot →
        ∀ a, (s.slot s.activeSlot).artifact = some a →
          G.dataCheckpointOracle.isReadable proposed a.identity = true)
      (if s.phase = .firstBoot then do
        let retained ← s.slotArtifact s.activeSlot
        raiseIf (!G.dataCheckpointOracle.isReadable proposed retained.identity)
          ⟨.fallbackReadabilityRejected, message⟩
      else .ok ()) := by
  obtain ⟨a, ha⟩ := hs.wellFormed.active
  split
  · refine gives_bind_ok (present_eq_ok ha) ?_
    unfold raiseIf
    split
    · exact ⟨rfl, fun _ h => absurd hk h, fun _ => rfl⟩
    · rename_i h
      intro _ x hx
      rw [ha] at hx
      cases hx
      simpa using h
  · rename_i hp
    exact fun h => absurd h hp

theorem tamper_gives {P : Raised → Prop} {t : TamperObservation}
    (hid : isText 256 t.operationId = true) (hphase : t.phase = .verify ∨ t.phase = .firstBoot)
    (hnonce : ∀ n, t.attemptNonce = some n → isText 256 n = true)
    (hem : isDigest t.expectedManifestSha256 = true) (her : isDigest t.expectedRootSha256 = true)
    (hom : isDigest t.observedManifestSha256 = true) (hor : isDigest t.observedRootSha256 = true)
    (hepoch : isPositive t.fenceEpoch = true) (hreason : isText 256 t.reason = true) :
    Gives P (fun _ => True) t.build := by
  have : t.check = .ok () := by
    simp only [TamperObservation.check, bind_eq_ok, checkText_eq_ok, checkTexts_eq_ok,
      checkDigest_eq_ok, checkPositive_eq_ok, raiseIf_eq_ok, exists_const, Option.mem_toList,
      Bool.not_eq_false', Bool.or_eq_true, beq_iff_eq]
    exact ⟨hid, hphase, hnonce, hem, her, hom, hor, hepoch, hreason⟩
  exact gives_bind_ok this trivial

/-! ## The commands, in the order of `_dispatch` -/

section Commands

variable (hs : s.Sound sha256) (hc : c.Fine)

include hs hc

theorem beginDownload_gives (hk : c.kind = .beginDownload) :
    Dispatched G s c (beginDownload s c) := by
  have hne : c.kind ≠ .reconcilePowerLoss := by rw [hk]; decide
  refine gives_requirePhase hne fun hp => ?_
  obtain ⟨target, htarget⟩ := hc.target hk
  obtain ⟨artifact, hartifact⟩ := hc.artifact (Or.inl hk)
  obtain ⟨active, hactive⟩ := hs.wellFormed.active
  refine gives_bind_ok (present_eq_ok htarget) (gives_bind_ok (present_eq_ok hartifact) ?_)
  refine gives_bind_raiseIf (fun _ => refusal_of_kind hne rfl) fun hinactive => ?_
  refine gives_bind_ok (present_eq_ok hactive) ?_
  refine gives_bind_raiseIf (fun _ => refusal_of_kind hne rfl) fun hother => ?_
  have hstep := Step.beginDownload (G := G) hk hp htarget hartifact (by simpa using hinactive)
    fun a ha => by
      rw [hactive] at ha
      cases ha
      simpa using hother
  exact gives_bind_ok (build_of_step hstep hs hc) ⟨hstep, isText_of_chars rfl (by decide)⟩

theorem downloadComplete_gives (hk : c.kind = .downloadComplete) :
    Dispatched G s c (downloadComplete s) := by
  refine gives_requirePhase (by rw [hk]; decide) fun hp => ?_
  have hstep := Step.downloadComplete (G := G) hk hp
  exact gives_bind_ok (build_of_step hstep hs hc) ⟨hstep, isText_of_chars rfl (by decide)⟩

theorem verificationTamper_gives {P : Raised → Prop} (hp : s.phase = .verify)
    (hk : c.kind = .verifyComplete) : Gives P (fun _ => True) (verificationTamper s c) := by
  obtain ⟨candidate, target, hcandidate, htarget, -⟩ :=
    hs.wellFormed.phase.early (Or.inr (Or.inl hp))
  obtain ⟨artifact, hartifact⟩ := hc.artifact (Or.inr hk)
  refine gives_bind_ok (updateFields_eq_ok htarget hcandidate)
    (gives_bind_ok (present_eq_ok hartifact) ?_)
  have hold := candidate.identity.valid.2.2.2
  have hnew := artifact.identity.valid.2.2.2
  exact tamper_gives hc.operationId (Or.inl rfl) (fun n hn => by cases hn) hold.1 hold.2.1 hnew.1
    hnew.2.1 hs.wellFormed.fence.positive (isText_of_chars rfl (by decide))

theorem verifyComplete_gives (hk : c.kind = .verifyComplete) :
    Dispatched G s c (verifyComplete s c) := by
  have hne : c.kind ≠ .reconcilePowerLoss := by rw [hk]; decide
  refine gives_requirePhase hne fun hp => ?_
  obtain ⟨artifact, hartifact⟩ := hc.artifact (Or.inr hk)
  obtain ⟨candidate, target, hcandidate, htarget, -⟩ :=
    hs.wellFormed.phase.early (Or.inr (Or.inl hp))
  obtain ⟨active, hactive⟩ := hs.wellFormed.active
  refine gives_bind_ok (present_eq_ok hartifact)
    (gives_bind_ok (updateFields_eq_ok htarget hcandidate)
      (gives_bind_ok (present_eq_ok hactive) ?_))
  split
  · refine gives_bind (verificationTamper_gives hs hc hp hk) fun tamper _ => ?_
    have hstep : Step G s c { s.cleared with
        tamperObservations := s.tamperObservations ++ [tamper] } := .verifyTampered hk hp
    exact gives_bind_ok (build_of_step (Step.verifyRefused (G := G) hk hp) hs hc)
      (gives_bind_ok (build_of_step hstep hs hc) ⟨hstep, isText_of_chars rfl (by decide)⟩)
  · split
    · have hstep := Step.verifyRefused (G := G) hk hp
      exact gives_bind_ok (build_of_step hstep hs hc) ⟨hstep, isText_of_chars rfl (by decide)⟩
    · rename_i hsame hpolicy
      simp only [not_or, ne_eq, Decidable.not_not, Bool.not_eq_false, not_le] at hsame hpolicy
      have hstep := Step.verified (G := G) hk hp hartifact hcandidate hsame.1 hsame.2 hpolicy.2.1
        hpolicy.2.2.2
      exact gives_bind_ok (build_of_step hstep hs hc) ⟨hstep, isText_of_chars rfl (by decide)⟩

theorem writeComplete_gives (hk : c.kind = .writeComplete) :
    Dispatched G s c (writeComplete s) := by
  have hne : c.kind ≠ .reconcilePowerLoss := by rw [hk]; decide
  refine gives_requirePhase hne fun hp => ?_
  obtain ⟨candidate, target, hcandidate, htarget, -⟩ :=
    hs.wellFormed.phase.early (Or.inr (Or.inr hp))
  refine gives_bind_ok (updateFields_eq_ok htarget hcandidate) ?_
  refine gives_bind_raiseIf (fun _ => refusal_of_kind hne rfl) fun htrusted => ?_
  have htrusted : candidate.trustedAndVerified = true := by simpa using htrusted
  have hstep := Step.written (G := G) hk hp htarget hcandidate htrusted
  exact gives_bind_ok (slotRecord_build (slotCheck_of_trusted (fun h => by cases h) htrusted))
    (gives_bind_ok (build_of_step hstep hs hc) ⟨hstep, isText_of_chars rfl (by decide)⟩)

theorem selectTrial_gives (hk : c.kind = .selectTrial) : Dispatched G s c (selectTrial s) := by
  have hne : c.kind ≠ .reconcilePowerLoss := by rw [hk]; decide
  refine gives_requirePhase hne fun hp => ?_
  obtain ⟨candidate, target, hcandidate, htarget, -⟩ := hs.wellFormed.phase.select hp
  refine gives_bind_ok (updateFields_eq_ok htarget hcandidate) ?_
  refine gives_bind_raiseIf (fun _ => refusal_of_kind hne rfl) fun hunselected => ?_
  have hstep := Step.selected (G := G) hk hp htarget (by simpa using hunselected)
  exact gives_bind_ok (build_of_step hstep hs hc) ⟨hstep, isText_of_chars rfl (by decide)⟩

theorem beginFirstBoot_gives (hk : c.kind = .beginFirstBoot) :
    Dispatched G s c (beginFirstBoot s c) := by
  have hne : c.kind ≠ .reconcilePowerLoss := by rw [hk]; decide
  refine gives_requirePhase hne fun hp => ?_
  obtain ⟨candidate, target, hcandidate, htarget, -⟩ := hs.wellFormed.phase.select hp
  obtain ⟨nonce, hnonce⟩ := hc.attemptNonce hk
  refine gives_bind_ok (updateFields_eq_ok htarget hcandidate)
    (gives_bind_ok (present_eq_ok hnonce) ?_)
  refine gives_bind_raiseIf (fun _ => refusal_of_kind hne rfl) fun hselected => ?_
  refine gives_bind_raiseIf (fun _ => refusal_of_kind hne rfl) fun hfresh => ?_
  have hstep := Step.firstBoot (G := G) hk hp htarget hnonce (by simpa using hselected)
    (by simpa using hfresh)
  exact gives_bind_ok (build_of_step hstep hs hc) ⟨hstep, isText_of_chars rfl (by decide)⟩

theorem bootTamper_gives {P : Raised → Prop} (hp : s.phase = .firstBoot)
    (hk : c.kind = .recordBootObservation) : Gives P (fun _ => True) (bootTamper s c) := by
  obtain ⟨candidate, target, _, hcandidate, htarget, -⟩ := hs.wellFormed.phase.firstBoot hp
  obtain ⟨o, ho⟩ := hc.bootObservation hk
  refine gives_bind_ok (updateFields_eq_ok htarget hcandidate)
    (gives_bind_ok (present_eq_ok ho) ?_)
  have hold := candidate.identity.valid.2.2.2
  have hnew := o.valid
  exact tamper_gives hc.operationId (Or.inr rfl) (fun n hn => by cases hn; exact hnew.1) hold.1
    hold.2.1 hnew.2.1 hnew.2.2.1 hs.wellFormed.fence.positive (isText_of_chars rfl (by decide))

omit hc in
theorem automaticFallback_eq_ok {target : SlotName} {artifact candidate : ReleaseArtifact}
    {failures : Int} (ht : s.targetSlot = some target) (hcandidate : s.candidate = some candidate)
    (hne : target ≠ s.activeSlot) (ha : (s.slot target).artifact = some artifact)
    (hfailures : 0 ≤ failures ∧ failures ≤ 3) :
    s.automaticFallback failures = .ok (s.fallenBack target artifact failures) := by
  rw [BootState.automaticFallback, updateFields_eq_ok ht hcandidate]
  refine bind_eq_ok.mpr ⟨(target, candidate), rfl, bind_eq_ok.mpr ⟨artifact, present_eq_ok ha,
    bind_eq_ok.mpr ⟨_, slotRecord_build (slotCheck_rejected _ _), ?_⟩⟩⟩
  exact build_eq_ok.mpr ⟨hs.wellFormed.fallenBack hne hfailures, rfl⟩

theorem recordBootObservation_gives (hk : c.kind = .recordBootObservation) :
    Dispatched G s c (recordBootObservation s c G) := by
  have hne : c.kind ≠ .reconcilePowerLoss := by rw [hk]; decide
  refine gives_requirePhase hne fun hp => ?_
  obtain ⟨candidate, target, nonce, hcandidate, htarget, hother, -, hstaged, -⟩ :=
    hs.wellFormed.phase.firstBoot hp
  obtain ⟨o, ho⟩ := hc.bootObservation hk
  refine gives_bind_raiseIf (fun _ => refusal_of_kind hne rfl) fun hunobserved => ?_
  refine gives_bind_ok (present_eq_ok ho) ?_
  refine gives_bind_raiseIf (fun _ => refusal_of_kind hne rfl) fun hpersisted => ?_
  refine gives_bind_ok (updateFields_eq_ok htarget hcandidate) ?_
  dsimp only
  split
  · rename_i hbinds
    have hstep := Step.observed (G := G) hk hp (by simpa using hunobserved) ho
      (by simpa using hpersisted) htarget hcandidate hbinds
    exact gives_bind_ok (build_of_step hstep hs hc) ⟨hstep, isText_of_chars rfl (by decide)⟩
  · refine gives_bind (ensureFallbackReadable_gives hs) fun _ _ => ?_
    refine gives_bind (bootTamper_gives hs hc hp hk) fun tamper _ => ?_
    have hartifact := (holdsStaged_iff.mp hstaged).2
    have hstep : Step G s c { s.fallenBack target candidate s.trialFailures with
        tamperObservations := s.tamperObservations ++ [tamper] } :=
      .misobserved hk hp htarget hartifact
    exact gives_bind_ok (automaticFallback_eq_ok hs htarget hcandidate hother hartifact
      hs.wellFormed.failures) (gives_bind_ok (build_of_step hstep hs hc)
        ⟨hstep, isText_of_chars rfl (by decide)⟩)

/-- A failed attempt, recorded or reconciled. -/
theorem recordTrialFailure_gives
    (hk : c.kind = .trialFailure ∨ c.kind = .reconcilePowerLoss) (hp : s.phase = .firstBoot) :
    Gives (Refusal G s c) (fun result => Step G s c result.1 ∧ isText 64 result.2 = true)
      (s.recordTrialFailure G) := by
  obtain ⟨candidate, target, nonce, hcandidate, htarget, hother, -, hstaged, -⟩ :=
    hs.wellFormed.phase.firstBoot hp
  have hartifact := (holdsStaged_iff.mp hstaged).2
  unfold BootState.recordTrialFailure
  dsimp only
  split
  · rename_i hmany
    refine gives_bind (ensureFallbackReadable_gives hs) fun _ _ => ?_
    have hstep := Step.fallback (G := G) hk hp hmany htarget hartifact
    have hbounds : 0 ≤ s.trialFailures + 1 ∧ s.trialFailures + 1 ≤ 3 := by
      have := hs.failures (by rw [hp]; decide)
      have := hs.wellFormed.failures.1
      omega
    exact gives_bind_ok (automaticFallback_eq_ok hs htarget hcandidate hother hartifact hbounds)
      ⟨hstep, isText_of_chars rfl (by decide)⟩
  · rename_i hfew
    have hstep := Step.retry (G := G) hk hp (not_le.mp hfew)
    exact gives_bind_ok (build_of_step hstep hs hc) ⟨hstep, isText_of_chars rfl (by decide)⟩

theorem trialFailure_gives (hk : c.kind = .trialFailure) :
    Dispatched G s c (trialFailure s G) := by
  refine gives_requirePhase (by rw [hk]; decide) fun hp => ?_
  exact (recordTrialFailure_gives hs hc (Or.inl hk) hp).mono fun _ h =>
    h.imp_right fun h => isText_mono h (by decide)

theorem ackEssentialHealth_gives (hk : c.kind = .ackEssentialHealth) :
    Dispatched G s c (ackEssentialHealth s c) := by
  have hne : c.kind ≠ .reconcilePowerLoss := by rw [hk]; decide
  refine gives_requirePhase hne fun hp => ?_
  obtain ⟨candidate, target, nonce, hcandidate, htarget, -, -, -, hnonce, hused, -⟩ :=
    hs.wellFormed.phase.firstBoot hp
  refine gives_bind (requireObservation_gives hne) fun o ho => ?_
  refine gives_bind_raiseIf (fun _ => refusal_of_kind hne rfl) fun hservices => ?_
  refine gives_bind_ok (updateFields_eq_ok htarget hcandidate)
    (gives_bind_ok (present_eq_ok hnonce) ?_)
  have hcheck : (s.acknowledgement nonce target candidate o).check = .ok () := by
    obtain ⟨htexts, hsorted, hsome⟩ := hs.wellFormed.services
    simp only [EssentialHealthAcknowledgement.check, bind_eq_ok, checkText_eq_ok,
      checkDigest_eq_ok, normalized_eq_ok, raiseIf_eq_ok, checkNonnegative_eq_ok, exists_const]
    exact ⟨hs.wellFormed.nonces.1 nonce hused, candidate.identity.valid.2.2.2.1,
      o.valid.2.2.2.2.2, by simpa [BootState.acknowledgement] using hsome, _, ⟨htexts, rfl⟩,
      by simpa [BootState.acknowledgement] using hsorted, hs.wellFormed.generation⟩
  have hstep := Step.healthy (G := G) hk hp ho (by simpa using hservices) htarget hcandidate hnonce
  exact gives_bind_ok hcheck (gives_bind_ok (build_of_step hstep hs hc)
    ⟨hstep, isText_of_chars rfl (by decide)⟩)

theorem commitTrial_gives (hk : c.kind = .commitTrial) : Dispatched G s c (commitTrial s G) := by
  have hne : c.kind ≠ .reconcilePowerLoss := by rw [hk]; decide
  refine gives_requirePhase hne fun hp => ?_
  obtain ⟨candidate, target, nonce, hcandidate, htarget, hother, -, hstaged, hnonce, -⟩ :=
    hs.wellFormed.phase.firstBoot hp
  obtain ⟨hstatus, hartifact⟩ := holdsStaged_iff.mp hstaged
  obtain ⟨active, hactive⟩ := hs.wellFormed.active
  refine gives_bind (requireEvidence_gives hne) fun evidence hevidence => ?_
  refine gives_bind_ok (present_eq_ok hnonce)
    (gives_bind_ok (updateFields_eq_ok htarget hcandidate) ?_)
  refine gives_bind_raiseIf (fun _ => refusal_of_kind hne rfl) fun _ => ?_
  refine gives_bind_ok (present_eq_ok hartifact) ?_
  refine gives_bind_raiseIf (fun _ => refusal_of_kind hne rfl) fun hreadable => ?_
  have htrusted := trusted_of_slotCheck (hs.slotsChecked target) (Or.inr hstatus) hartifact
  have hold := trusted_of_slotCheck (hs.slotsChecked s.activeSlot)
    (Or.inl hs.wellFormed.slots.status) hactive
  have hretained : SlotRecord.build (s.slot s.activeSlot).identity
      (s.slot s.activeSlot).artifact .retained = .ok s.retainedRecord := by
    refine slotRecord_build ?_
    rw [hactive]
    exact slotCheck_of_trusted (fun h => by cases h) hold
  have hstep := Step.commit (G := G) hk hp hevidence.1 hevidence.2 htarget hartifact
    (by simpa using hreadable)
  exact gives_bind_ok hretained (gives_bind_ok
    (slotRecord_build (slotCheck_of_trusted (fun h => by cases h) htrusted))
    (gives_bind_ok (build_of_step hstep hs hc) ⟨hstep, isText_of_chars rfl (by decide)⟩))

theorem ackDataCheckpoint_gives (hk : c.kind = .ackDataCheckpoint) :
    Dispatched G s c (ackDataCheckpoint s c G) := by
  have hne : c.kind ≠ .reconcilePowerLoss := by rw [hk]; decide
  obtain ⟨proposed, hproposed⟩ := hc.dataCheckpoint hk
  refine gives_bind_ok (present_eq_ok hproposed) ?_
  refine gives_bind (observedRunningRelease_gives hs hne) fun writer hwriter => ?_
  refine gives_bind_raiseIf (fun _ => refusal_of_kind hne rfl) fun hlater => ?_
  refine gives_bind_raiseIf (fun _ => refusal_of_kind hne rfl) fun hsame => ?_
  refine gives_bind_raiseIf (fun _ => refusal_of_kind hne rfl) fun hbound => ?_
  refine gives_bind_raiseIf (fun _ => refusal_of_kind hne rfl) fun hdurable => ?_
  refine gives_bind (trialReadable_gives hs hk) fun _ hreadable => ?_
  simp only [Bool.or_eq_false_iff, bne_eq_false_iff_eq] at hbound
  have hstep := Step.checkpoint (G := G) hk hproposed hwriter (by simpa using hlater)
    (by simpa using hsame) hbound.1.2 hbound.2 (by simpa using hdurable) hreadable
  exact gives_bind_ok (build_of_step hstep hs hc) ⟨hstep, isText_of_chars rfl (by decide)⟩

theorem reconcilePowerLoss_gives (hk : c.kind = .reconcilePowerLoss) :
    Dispatched G s c (s.reconcilePowerLoss G) := by
  unfold BootState.reconcilePowerLoss
  have hearly : ∀ {a b : String}, isText 64 a = true → isText 64 b = true →
      isText 256 (a ++ b ++ "-active-retained") = true := fun ha hb =>
    isText_append (isText_append ha hb (le_refl 128)) (isText_of_chars rfl (by decide) :
      isText 64 _ = true) (by decide)
  split
  · rename_i hp
    exact ⟨.stable hk hp, isText_of_chars rfl (by decide)⟩
  · rename_i hp
    have hstep := Step.lostEarly (G := G) hk (Or.inl hp)
    refine gives_bind_ok (build_of_step hstep hs hc) ⟨hstep, hearly ?_ ?_⟩
    · exact isText_of_chars rfl (by decide)
    · rw [hp]
      exact isText_of_chars rfl (by decide)
  · rename_i hp
    have hstep := Step.lostEarly (G := G) hk (Or.inr hp)
    refine gives_bind_ok (build_of_step hstep hs hc) ⟨hstep, hearly ?_ ?_⟩
    · exact isText_of_chars rfl (by decide)
    · rw [hp]
      exact isText_of_chars rfl (by decide)
  · rename_i hp
    obtain ⟨candidate, target, hcandidate, htarget, -⟩ :=
      hs.wellFormed.phase.early (Or.inr (Or.inr hp))
    have hstep := Step.lostWrite (G := G) hk hp htarget hcandidate
    exact gives_bind_ok (updateFields_eq_ok htarget hcandidate)
      (gives_bind_ok (slotRecord_build (slotCheck_rejected _ _))
        (gives_bind_ok (build_of_step hstep hs hc) ⟨hstep, isText_of_chars rfl (by decide)⟩))
  · rename_i hp
    refine gives_bind (ensureFallbackReadable_gives hs) fun _ _ => ?_
    have hstep := Step.lostSelect (G := G) hk hp
    exact gives_bind_ok (build_of_step hstep hs hc) ⟨hstep, isText_of_chars rfl (by decide)⟩
  · rename_i hp
    refine gives_bind (recordTrialFailure_gives hs hc (Or.inr hk) hp) fun result h => ?_
    exact ⟨h.1, isText_append (isText_of_chars rfl (by decide) : isText 64 _ = true) h.2
      (by decide)⟩

theorem rotateFence_gives (hk : c.kind = .rotateFence) : Dispatched G s c (rotateFence s c) := by
  have hne : c.kind ≠ .reconcilePowerLoss := by rw [hk]; decide
  refine gives_requirePhase hne fun hp => ?_
  obtain ⟨epoch, owner, hepoch, howner⟩ := hc.rotation hk
  have hrotation : c.fenceRotation = .ok (epoch, owner) := by
    rw [BootCommand.fenceRotation, hepoch, howner]
  refine gives_bind_ok hrotation ?_
  refine gives_bind_raiseIf (fun _ => refusal_of_kind hne rfl) fun hnext => ?_
  refine gives_bind_raiseIf (fun _ => refusal_of_kind hne rfl) fun hfresh => ?_
  simp only [List.contains_eq_mem, decide_eq_false_iff_not, List.mem_cons, not_or] at hfresh
  have hstep := Step.rotate (G := G) hk hp hepoch howner (by simpa using hnext) hfresh.1 hfresh.2
  exact gives_bind_ok (build_of_step hstep hs hc) ⟨hstep, isText_of_chars rfl (by decide)⟩

/-- **A command in a sound state does a step or is refused.** -/
theorem dispatch_gives : Dispatched G s c (dispatch s c G) := by
  unfold dispatch
  split
  · exact beginDownload_gives hs hc ‹_›
  · exact downloadComplete_gives hs hc ‹_›
  · exact verifyComplete_gives hs hc ‹_›
  · exact writeComplete_gives hs hc ‹_›
  · exact selectTrial_gives hs hc ‹_›
  · exact beginFirstBoot_gives hs hc ‹_›
  · exact recordBootObservation_gives hs hc ‹_›
  · exact trialFailure_gives hs hc ‹_›
  · exact ackEssentialHealth_gives hs hc ‹_›
  · exact commitTrial_gives hs hc ‹_›
  · exact ackDataCheckpoint_gives hs hc ‹_›
  · exact reconcilePowerLoss_gives hs hc ‹_›
  · exact rotateFence_gives hs hc ‹_›

end Commands

/-! ## The ledger -/

theorem isDigest_chainOrigin : isDigest chainOrigin = true :=
  isDigest_ofList (List.length_replicate ..) fun c hc => by
    rw [List.eq_of_mem_replicate hc]
    decide

theorem recordCheck_eq_ok {r : OperationRecord} {u : Unit} : r.check sha256 = .ok u ↔
    isText 256 r.operationId = true ∧ isDigest r.requestSha256 = true ∧
      isPositive r.appliedGeneration = true ∧ isText 256 r.outcome = true ∧
      isDigest r.previousRecordSha256 = true ∧ isDigest r.recordSha256 = true ∧
      r.recordSha256 = r.digest sha256 := by
  simp only [OperationRecord.check, bind_eq_ok, checkText_eq_ok, checkDigest_eq_ok,
    checkPositive_eq_ok, raiseIf_eq_ok, bne_eq_false_iff_eq, exists_const]

theorem check_raises {b : Bool} {message : String} :
    Gives (fun e : Raised => e.kind = .validation) (fun _ => True) (raiseIf b (invalid message)) := by
  cases b
  · exact trivial
  · exact rfl

theorem recordCheck_kind {r : OperationRecord} {e : Raised} (h : r.check sha256 = .error e) :
    e.kind = .validation := by
  have hgives : Gives (fun e => e.kind = .validation) (fun _ => True) (r.check sha256) := by
    have hdigest : ∀ {field value}, Gives (fun e : Raised => e.kind = .validation) (fun _ => True)
        (checkDigest field value) := gives_bind check_raises fun _ _ => check_raises
    have hpositive : ∀ {field value}, Gives (fun e : Raised => e.kind = .validation) (fun _ => True)
        (checkPositive field value) := gives_bind check_raises fun _ _ => check_raises
    refine gives_bind check_raises fun _ _ => gives_bind hdigest fun _ _ =>
      gives_bind hpositive fun _ _ => gives_bind check_raises fun _ _ =>
        gives_bind hdigest fun _ _ => gives_bind hdigest fun _ _ => check_raises
  rw [h] at hgives
  exact hgives

theorem isDigest_lastRecord (hs : s.Sound sha256) : isDigest (lastRecord s.operations) = true := by
  unfold lastRecord
  cases h : s.operations.getLast? with
  | none => exact isDigest_chainOrigin
  | some r =>
    exact (recordCheck_eq_ok.mp (hs.recordsChecked r (List.mem_of_getLast? h))).2.2.2.2.2.1

theorem chained_concat {r : OperationRecord} : ∀ {previous : String}
    {records : List OperationRecord}, chained previous (records ++ [r]) = true ↔
      chained previous records = true ∧ r.previousRecordSha256 =
        (records.getLast?.map OperationRecord.recordSha256).getD previous
  | previous, [] => by simp [chained]
  | previous, x :: records => by
    rw [List.cons_append, chained, chained, Bool.and_eq_true, Bool.and_eq_true, chained_concat,
      and_assoc, List.getLast?_cons]
    cases records.getLast? <;> rfl

theorem generations_succ {g : Int} (h : 0 ≤ g) : generations (g + 1) = generations g ++ [g + 1] := by
  obtain ⟨n, rfl⟩ := Int.eq_ofNat_of_zero_le h
  have : ((n : Int) + 1).toNat = n + 1 := by omega
  simp only [generations, this, Int.toNat_natCast, List.range_succ, List.map_append, List.map_cons,
    List.map_nil]

theorem LedgerFine.push {operations : List OperationRecord} {g : Int} {r : OperationRecord}
    (h : LedgerFine operations g) (hg : 0 ≤ g)
    (hid : r.operationId ∉ operations.map OperationRecord.operationId)
    (happlied : r.appliedGeneration = g + 1)
    (hprevious : r.previousRecordSha256 = lastRecord operations) :
    LedgerFine (operations ++ [r]) (g + 1) where
  nodup := by
    rw [List.map_append]
    refine List.nodup_append.mpr ⟨h.nodup, List.nodup_singleton _, fun a ha b hb heq => ?_⟩
    rw [List.map_cons, List.map_nil, List.mem_singleton] at hb
    exact hid (hb ▸ heq ▸ ha)
  covers := by
    rw [List.map_append, h.covers, generations_succ hg, List.map_cons, List.map_nil, happlied]
  chained := chained_concat.mpr ⟨h.chained, hprevious⟩

/-! ## `transition` -/

/-- What no command changes. -/
theorem step_kept (h : Step G s c s') : s'.controllerId = s.controllerId ∧
    s'.generation = s.generation ∧ s'.operations = s.operations ∧
    s'.essentialServices = s.essentialServices := by
  cases h <;> exact ⟨rfl, rfl, rfl, rfl⟩

/-- The changed state with the record of the command, before it is authenticated. -/
def unsealed (sha256 : Bytes → Vector UInt8 32) (s : BootState) (c : BootCommand)
    (changed : BootState) (outcome : String) : BootState :=
  { changed with
    generation := s.generation + 1
    operations := s.operations ++ [appliedRecord sha256 s c outcome] }

/-- The state authenticated. -/
def BootState.withSeal (s : BootState) (G : TransitionGuards) : BootState :=
  { s with authenticationTag := G.stateAuthenticator.sealTag s.authenticatedBytes }

/-- **A command applied**: the step, its record and its receipt. -/
structure Applied (sha256 : Bytes → Vector UInt8 32) (G : TransitionGuards) (s : BootState)
    (c : BootCommand) (r : TransitionResult) : Prop where
  fence : c.fenceEpoch = s.fenceEpoch ∧ c.fenceOwnerToken = s.fenceOwnerToken
  generation : c.expectedGeneration = s.generation
  unused : c.operationId ∉ s.operations.map OperationRecord.operationId
  step : ∃ changed outcome, Step G s c changed ∧
    r.state = (unsealed sha256 s c changed outcome).withSeal G ∧
    r.receipt = ⟨c.operationId, c.kind, s.generation + 1, outcome, false⟩
  anchor : r.anchorUpdate = some ⟨s.controllerId, s.generation, s.commitmentSha256 sha256,
    r.state.generation, r.state.commitmentSha256 sha256⟩

/-- **A command replayed**: nothing changes, and the receipt is the recorded one. -/
def Replayed (sha256 : Bytes → Vector UInt8 32) (s : BootState) (c : BootCommand)
    (r : TransitionResult) : Prop :=
  ∃ record ∈ s.operations, record.operationId = c.operationId ∧ record.kind = c.kind ∧
    record.requestSha256 = c.requestSha256 sha256 ∧
    r = ⟨s, ⟨record.operationId, record.kind, record.appliedGeneration, record.outcome, true⟩, none⟩

/-- The seal is a tag that verifies. -/
def Seals (G : TransitionGuards) (payload : Bytes) : Prop :=
  isText 1024 (G.stateAuthenticator.sealTag payload) = true ∧
    G.stateAuthenticator.verify payload (G.stateAuthenticator.sealTag payload) = true

/-- What `transition` raises. -/
inductive Rejected (sha256 : Bytes → Vector UInt8 32) (G : TransitionGuards) (s : BootState)
    (c : BootCommand) (e : Raised) : Prop
  | unauthentic (kind : e.kind = .stateAuthenticationRejected) (forged : G.stateAuthenticator.verify s.authenticatedBytes
      s.authenticationTag = false)
  | stale (kind : e.kind = .monotonicAnchorRejected) (rolledBack : G.monotonicAnchor.isCurrent s.controllerId s.generation
      (s.commitmentSha256 sha256) = false)
  | conflict (kind : e.kind = .idempotencyConflict)
      (used : ∃ record ∈ s.operations, record.operationId = c.operationId ∧
        ¬(record.kind = c.kind ∧ record.requestSha256 = c.requestSha256 sha256))
  | fenced (kind : e.kind = .fenceRejected)
      (other : ¬(c.fenceEpoch = s.fenceEpoch ∧ c.fenceOwnerToken = s.fenceOwnerToken))
  | outdated (kind : e.kind = .staleGeneration) (other : c.expectedGeneration ≠ s.generation)
  | refused (refusal : Refusal G s c e)
  | exhausted (kind : e.kind = .validation) (full : s.generation + 1 = 2 ^ 63)
  | unsealable (kind : e.kind = .validation ∨ e.kind = .stateAuthenticationRejected)
      (broken : ∃ payload, ¬Seals G payload)

/-- A later generation keeps the phase fine: an acknowledgement stays in the past. -/
theorem PhaseFine.later {g : Int} {operations : List OperationRecord} (h : PhaseFine s)
    (hg : s.generation ≤ g) : PhaseFine { s with generation := g, operations := operations } := by
  unfold PhaseFine at h ⊢
  dsimp only
  cases hp : s.phase with
  | idle | download | verify | write | select =>
    rw [hp] at h
    exact h
  | firstBoot =>
    rw [hp] at h
    obtain ⟨candidate, target, nonce, hcandidate, htarget, hne, hselected, hstaged, hnonce, hused,
      hobserved, hhealthy⟩ := h
    refine ⟨candidate, target, nonce, hcandidate, htarget, hne, hselected, hstaged, hnonce, hused,
      hobserved, fun a ha => ?_⟩
    have := hhealthy a ha
    simp only [EssentialHealthAcknowledgement.binds, Option.any_eq_true, Bool.and_eq_true,
      decide_eq_true_eq] at this ⊢
    obtain ⟨o, ho, hbound, hpast⟩ := this
    exact ⟨o, ho, hbound, hpast.trans hg⟩

theorem unsealed_sound {changed : BootState} {outcome : String} (hs : s.Sound sha256) (hc : c.Fine)
    (hstep : Step G s c changed) (hg : s.generation + 1 < 2 ^ 63)
    (hunused : c.operationId ∉ s.operations.map OperationRecord.operationId)
    (houtcome : isText 256 outcome = true) :
    (appliedRecord sha256 s c outcome).check sha256 = .ok () ∧
      (unsealed sha256 s c changed outcome).Sound sha256 := by
  have hchanged := step_sound hstep hs hc
  obtain ⟨-, hgeneration, hoperations, -⟩ := step_kept hstep
  have hw := hchanged.wellFormed
  have hnonnegative := isNonnegative_iff.mp hs.wellFormed.generation
  have hrecord : (appliedRecord sha256 s c outcome).check sha256 = .ok () := by
    refine recordCheck_eq_ok.mpr ⟨hc.operationId, isDigest_hex _, isPositive_iff.mpr ⟨?_, hg⟩,
      houtcome, isDigest_lastRecord hs, isDigest_hex _, rfl⟩
    simp only [appliedRecord]
    omega
  have hledger := hs.wellFormed.ledger.push (r := appliedRecord sha256 s c outcome) hnonnegative.1
    hunused rfl rfl
  refine ⟨hrecord, { hchanged with
    wellFormed := { hw with
      generation := isNonnegative_iff.mpr ⟨?_, hg⟩
      ledger := hledger
      phase := ?_ }
    recordsChecked := fun r hr => ?_ }⟩
  · simp only [unsealed]
    omega
  · exact hw.phase.later (by omega)
  · rcases List.mem_append.mp hr with hr | hr
    · exact hs.recordsChecked r hr
    · rw [List.mem_singleton.mp hr]
      exact hrecord

theorem withSeal_sound (hs : s.Sound sha256)
    (htag : isText 1024 (G.stateAuthenticator.sealTag s.authenticatedBytes) = true) :
    (s.withSeal G).Sound sha256 :=
  { hs with wellFormed := { hs.wellFormed with tag := htag } }

theorem apply_gives (hs : s.Sound sha256) (hc : c.Fine)
    (hunused : c.operationId ∉ s.operations.map OperationRecord.operationId) :
    Gives (Rejected sha256 G s c)
      (fun r => Applied sha256 G s c r ∧ r.state.Sound sha256) (apply sha256 s c G) := by
  refine gives_bind_raiseIf (fun h => .fenced rfl ?_) fun hfence => ?_
  · intro hsame
    simp [hsame.1, hsame.2] at h
  simp only [Bool.or_eq_false_iff, bne_eq_false_iff_eq] at hfence
  refine gives_bind_raiseIf (fun h => .outdated rfl (by simpa using h)) fun hgeneration => ?_
  simp only [bne_eq_false_iff_eq] at hgeneration
  refine gives_bind (dispatch_gives (G := G) hs hc |>.mono_error fun e => .refused) fun result h => ?_
  obtain ⟨hstep, houtcome⟩ := h
  have hg := isNonnegative_iff.mp hs.wellFormed.generation
  by_cases hfull : s.generation + 1 = 2 ^ 63
  · have hrecord : Gives (Rejected sha256 G s c) (fun _ => False)
        ((appliedRecord sha256 s c result.2).check sha256) := by
      cases h : (appliedRecord sha256 s c result.2).check sha256 with
      | error e => exact .exhausted (recordCheck_kind h) hfull
      | ok u =>
        have := (isPositive_iff.mp (recordCheck_eq_ok.mp h).2.2.1).2
        simp only [appliedRecord] at this
        omega
    exact gives_bind hrecord fun _ h => h.elim
  · obtain ⟨hrecord, hsound⟩ := unsealed_sound hs hc hstep (by omega) hunused houtcome
    refine gives_bind_ok hrecord (gives_bind_ok (build_eq_ok.mpr ⟨hsound.wellFormed, rfl⟩) ?_)
    let next := unsealed sha256 s c result.1 result.2
    refine gives_bind_raiseIf (fun h => .unsealable (Or.inl rfl) ⟨next.authenticatedBytes, fun hseal => ?_⟩)
      fun htag => ?_
    · exact absurd (hseal.1.symm.trans ((Bool.not_eq_true' _).mp h)) (by decide)
    have hdurable := withSeal_sound (G := G) hsound ((Bool.not_eq_false' _).mp htag)
    refine gives_bind_ok (build_eq_ok.mpr ⟨hdurable.wellFormed, rfl⟩) ?_
    refine gives_bind_raiseIf (fun h => .unsealable (Or.inr rfl) ⟨next.authenticatedBytes, fun hseal => ?_⟩)
      fun _ => ?_
    · exact absurd (hseal.2.symm.trans ((Bool.not_eq_true' _).mp h)) (by decide)
    exact ⟨⟨hfence, hgeneration, hunused, ⟨result.1, result.2, hstep, rfl, rfl⟩, rfl⟩, hdurable⟩

/-- **What `transition` does** in a sound state. -/
theorem transition_gives (hs : s.Sound sha256) (hc : c.Fine) :
    Gives (Rejected sha256 G s c)
      (fun r => Replayed sha256 s c r ∨ (Applied sha256 G s c r ∧ r.state.Sound sha256))
      (transition sha256 s c G) := by
  have hauthentic : Gives (Rejected sha256 G s c) (fun _ => True) (authenticate sha256 s G) :=
    gives_bind_raiseIf (fun h => .unauthentic rfl (by simpa using h)) fun _ => by
      unfold raiseIf
      split
      · rename_i h
        exact .stale rfl (by simpa using h)
      · exact trivial
  refine gives_bind hauthentic fun _ _ => ?_
  split
  · rename_i record hfind
    have hmem := List.mem_of_find?_eq_some hfind
    have hid : record.operationId = c.operationId := by simpa using List.find?_some hfind
    refine gives_bind_raiseIf (fun h => .conflict rfl ⟨record, hmem, hid, fun hsame => ?_⟩)
      fun hsame => ?_
    · simp [hsame.1, hsame.2] at h
    · simp only [Bool.or_eq_false_iff, bne_eq_false_iff_eq] at hsame
      exact Or.inl ⟨record, hmem, hid, hsame.1, hsame.2, rfl⟩
  · rename_i hfind
    refine (apply_gives hs hc ?_).mono fun r h => Or.inr h
    simpa [List.find?_eq_none] using hfind

end LumaOS.Boot
