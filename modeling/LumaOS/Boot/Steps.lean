import LumaOS.Boot.Transition

/-!
# What a command can do

`Step` lists what `_dispatch` can do to a state, one constructor for each branch that returns, with
the conditions the branch has checked. `BootState.Sound` is what holds of every state the controller
reaches: the validator and four facts it does not check, on the floor, the failures, the candidate
past its verification and the data schema.

* `step_wellFormed`: a step from a sound state passes the validator.
* `dispatch_gives`: a well-formed command in a sound state is a `Step`, or raises one of the
  documented refusals. No rebuilt value is ever rejected.
* `transition_gives`: the same of `transition`, with the ledger and the seal.
-/

namespace LumaOS.Boot

open LumaOS.Base LumaOS.Text LumaOS.Json

variable {sha256 : Bytes → Vector UInt8 32} {s s' : BootState} {c : BootCommand}
  {G : TransitionGuards} {outcome : String}

/-! ## Commands that were built -/

/-- What `BootCommand.__post_init__` makes sure of. -/
structure BootCommand.Fine (c : BootCommand) : Prop where
  operationId : isText 256 c.operationId
  shape : ∀ f, c.present f = c.kind.allowed.contains f
  nonce : ∀ n, c.attemptNonce = some n → isText 256 n
  epoch : ∀ e, c.newFenceEpoch = some e → isPositive e
  owner : ∀ o, c.newFenceOwnerToken = some o → isText 256 o

theorem postInit_fine {raw : BootCommand} (h : raw.postInit = .ok c) : c.Fine := by
  simp only [BootCommand.postInit, BootCommand.validateShape, bind_eq_ok, checkText_eq_ok,
    checkNonnegative_eq_ok, checkPositive_eq_ok, checkTexts_eq_ok, raiseIf_eq_ok, pure_eq_ok,
    exists_const, Bool.not_eq_false', List.all_eq_true, beq_iff_eq, Option.mem_toList] at h
  obtain ⟨hid, -, -, -, _, -, hnonce, _, hepoch, howner, hshape, rfl⟩ := h
  refine ⟨hid, fun f => hshape f (by cases f <;> decide), hnonce, fun e he => ?_, howner⟩
  simp only at he
  rw [he] at hepoch
  exact checkPositive_eq_ok.mp hepoch

namespace BootCommand.Fine

theorem isSome_iff (h : c.Fine) (f : Payload) : c.present f = true ↔ f ∈ c.kind.allowed := by
  rw [h.shape f, List.contains_iff_mem]

theorem target (h : c.Fine) (hk : c.kind = .beginDownload) : ∃ t, c.targetSlot = some t :=
  Option.isSome_iff_exists.mp ((h.isSome_iff .targetSlot).mpr (by rw [hk]; decide))

theorem artifact (h : c.Fine) (hk : c.kind = .beginDownload ∨ c.kind = .verifyComplete) :
    ∃ a, c.artifact = some a :=
  Option.isSome_iff_exists.mp
    ((h.isSome_iff .artifact).mpr (by rcases hk with hk | hk <;> rw [hk] <;> decide))

theorem attemptNonce (h : c.Fine) (hk : c.kind = .beginFirstBoot) : ∃ n, c.attemptNonce = some n :=
  Option.isSome_iff_exists.mp ((h.isSome_iff .attemptNonce).mpr (by rw [hk]; decide))

theorem bootObservation (h : c.Fine) (hk : c.kind = .recordBootObservation) :
    ∃ o, c.bootObservation = some o :=
  Option.isSome_iff_exists.mp ((h.isSome_iff .bootObservation).mpr (by rw [hk]; decide))

theorem dataCheckpoint (h : c.Fine) (hk : c.kind = .ackDataCheckpoint) :
    ∃ d, c.dataCheckpoint = some d :=
  Option.isSome_iff_exists.mp ((h.isSome_iff .dataCheckpoint).mpr (by rw [hk]; decide))

theorem rotation (h : c.Fine) (hk : c.kind = .rotateFence) :
    ∃ e o, c.newFenceEpoch = some e ∧ c.newFenceOwnerToken = some o := by
  obtain ⟨e, he⟩ := Option.isSome_iff_exists.mp
    ((h.isSome_iff .newFenceEpoch).mpr (by rw [hk]; decide))
  obtain ⟨o, ho⟩ := Option.isSome_iff_exists.mp
    ((h.isSome_iff .newFenceOwnerToken).mpr (by rw [hk]; decide))
  exact ⟨e, o, he, ho⟩

end BootCommand.Fine

/-! ## Slots -/

section Slots

variable {slots : SlotRecord × SlotRecord} {r : SlotRecord} {n active : SlotName} {floor : Int}

theorem slotOf_name (h : slots.1.identity.name ≠ slots.2.identity.name) :
    (slotOf slots n).identity.name = n := by
  unfold slotOf
  by_cases h1 : slots.1.identity.name = n
  · rw [if_pos h1, h1]
  · rw [if_neg h1]
    by_contra h2
    rw [← ne_eq, ← SlotName.eq_other_iff] at h1 h2
    exact h (h1.trans h2.symm)

/-- The slots after the record of the name `n` is replaced by one of the same identity. -/
theorem slotOf_replace (h : slots.1.identity.name ≠ slots.2.identity.name)
    (hr : r.identity = (slotOf slots n).identity) (m : SlotName) :
    slotOf (replaceSlotTuple slots r) m = if m = n then r else slotOf slots m := by
  have hname : r.identity.name = n := by rw [hr, slotOf_name h]
  unfold replaceSlotTuple slotOf
  rw [hname]
  by_cases h1 : slots.1.identity.name = n
  · have h2 : slots.2.identity.name ≠ n := fun h2 => h (h1.trans h2.symm)
    simp only [if_pos h1, if_neg h2, hname]
    by_cases hm : m = n
    · rw [if_pos hm, if_pos hm.symm]
    · rw [if_neg hm, if_neg (Ne.symm hm), if_neg fun h' => hm (h'.symm.trans h1)]
  · have h2 : slots.2.identity.name = n := by
      have := slotOf_name (n := n) h
      rwa [slotOf, if_neg h1] at this
    simp only [if_neg h1, if_pos h2]
    by_cases hm : m = n
    · rw [if_pos hm, if_neg (hm ▸ h1)]
    · have : slots.1.identity.name = m := by
        rw [SlotName.eq_other_iff.mpr h1, SlotName.eq_other_iff.mpr hm]
      rw [if_neg hm, if_pos this, if_pos this]

theorem slot_of_replaced {t : BootState} (hs : SlotsFine s.slots active floor)
    (ht : t.slots = replaceSlotTuple s.slots r) (hr : r.identity = (s.slot n).identity)
    (m : SlotName) : t.slot m = if m = n then r else s.slot m := by
  rw [BootState.slot, ht]
  exact slotOf_replace hs.names hr m

theorem replace_identities (h : slots.1.identity.name ≠ slots.2.identity.name)
    (hr : r.identity = (slotOf slots n).identity) :
    (replaceSlotTuple slots r).1.identity = slots.1.identity ∧
      (replaceSlotTuple slots r).2.identity = slots.2.identity := by
  have hname : r.identity.name = n := by rw [hr, slotOf_name h]
  unfold replaceSlotTuple
  rw [hname]
  by_cases h1 : slots.1.identity.name = n
  · have h2 : slots.2.identity.name ≠ n := fun h2 => h (h1.trans h2.symm)
    rw [if_pos h1, if_neg h2, hr, slotOf, if_pos h1]
    exact ⟨rfl, rfl⟩
  · rw [if_neg h1]
    refine ⟨rfl, ?_⟩
    by_cases h2 : slots.2.identity.name = n
    · rw [if_pos h2, hr, slotOf, if_neg h1]
    · rw [if_neg h2]

/-- Replacing an inactive record by another inactive one. -/
theorem SlotsFine.replace (h : SlotsFine slots active floor)
    (hr : r.identity = (slotOf slots n).identity) (hn : n ≠ active) (hstatus : r.status ≠ .active) :
    SlotsFine (replaceSlotTuple slots r) active floor := by
  obtain ⟨h1, h2⟩ := replace_identities h.names hr
  have hslot := slotOf_replace h.names hr
  refine ⟨by rw [h1, h2]; exact h.names, by rw [h1, h2]; exact h.stableIds, ?_, ?_, ?_, h.floor⟩
  · rw [hslot, if_neg (Ne.symm hn)]
    exact h.status
  · rw [hslot, if_neg (Ne.symm hn)]
    exact h.artifact
  · intro m hm
    rw [hslot]
    split
    · exact hstatus
    · exact h.sole m hm

section Commit

variable (retained activated : SlotRecord) (h : SlotsFine slots active floor) (hn : n ≠ active)
  (hretained : retained.identity = (slotOf slots active).identity)
  (hactivated : activated.identity = (slotOf slots n).identity)

include h hn hretained hactivated

/-- The commit: the active record is retained and another one activated. -/
theorem slotOf_commit (m : SlotName) :
    slotOf (replaceSlotTuple (replaceSlotTuple slots retained) activated) m =
      if m = n then activated else retained := by
  obtain ⟨h1, h2⟩ := replace_identities h.names hretained
  have hslot := slotOf_replace h.names hretained
  rw [slotOf_replace (n := n) (by rw [h1, h2]; exact h.names)
    (by rw [hslot, if_neg hn, hactivated]), hslot]
  split
  · rfl
  · rename_i hm
    exact if_pos ((SlotName.eq_other_iff.mpr hm).trans
      (SlotName.eq_other_iff.mpr (Ne.symm hn)).symm)

theorem SlotsFine.commit {a : ReleaseArtifact} (hrstatus : retained.status ≠ .active)
    (hastatus : activated.status = .active) (hartifact : activated.artifact = some a) :
    SlotsFine (replaceSlotTuple (replaceSlotTuple slots retained) activated) n
      a.identity.releaseSequence := by
  have hslot := slotOf_commit retained activated h hn hretained hactivated
  obtain ⟨h1, h2⟩ := replace_identities h.names hretained
  have hnames : (replaceSlotTuple slots retained).1.identity.name ≠
      (replaceSlotTuple slots retained).2.identity.name := by rw [h1, h2]; exact h.names
  obtain ⟨h1', h2'⟩ := replace_identities (n := n) (r := activated) hnames
    (by rw [slotOf_replace h.names hretained, if_neg hn, hactivated])
  refine ⟨by rw [h1', h2']; exact hnames, by rw [h1', h2', h1, h2]; exact h.stableIds, ?_, ?_, ?_,
    a.identity.valid.2.2.1⟩
  · rw [hslot, if_pos rfl]
    exact hastatus
  · rw [hslot, if_pos rfl]
    exact ⟨a, hartifact, le_refl _⟩
  · intro m hm
    rw [hslot, if_neg hm]
    exact hrstatus

end Commit

end Slots

/-! ## Sound states -/

/-- The phases past the verification. -/
def UpdatePhase.verified : UpdatePhase → Bool
  | .write | .select | .firstBoot => true
  | _ => false

/-- **What holds of every reachable state**, beyond the validator. -/
structure BootState.Sound (sha256 : Bytes → Vector UInt8 32) (s : BootState) : Prop where
  wellFormed : s.WellFormed
  slotsChecked : ∀ n, (s.slot n).check = .ok ()
  recordsChecked : ∀ r ∈ s.operations, r.check sha256 = .ok ()
  failures : s.phase ≠ .idle → s.trialFailures ≤ 2
  floor : ∀ a, (s.slot s.activeSlot).artifact = some a →
    s.minimumReleaseSequence = a.identity.releaseSequence
  schema : ∀ a, (s.slot s.activeSlot).artifact = some a →
    s.dataCheckpoint.schemaId = a.identity.dataCompatibilityId
  verified : s.phase.verified = true → ∀ a, s.candidate = some a → a.trustedAndVerified = true ∧
    s.minimumReleaseSequence < a.identity.releaseSequence ∧
    a.identity.dataCompatibilityId = s.dataCheckpoint.schemaId

section Phases

theorem PhaseFine.idle (h : PhaseFine s) (hp : s.phase = .idle) : s.candidate = none ∧
    s.targetSlot = none ∧ s.selectedSlot = s.activeSlot ∧ s.hasEvidence = false := by
  unfold PhaseFine at h
  rwa [hp] at h

theorem PhaseFine.early (h : PhaseFine s)
    (hp : s.phase = .download ∨ s.phase = .verify ∨ s.phase = .write) :
    ∃ candidate target, s.candidate = some candidate ∧ s.targetSlot = some target ∧
      target ≠ s.activeSlot ∧ s.selectedSlot = s.activeSlot ∧ s.hasEvidence = false := by
  unfold PhaseFine at h
  rcases hp with hp | hp | hp <;> rwa [hp] at h

theorem PhaseFine.select (h : PhaseFine s) (hp : s.phase = .select) :
    ∃ candidate target, s.candidate = some candidate ∧ s.targetSlot = some target ∧
      target ≠ s.activeSlot ∧ (s.selectedSlot = s.activeSlot ∨ s.selectedSlot = target) ∧
      s.holdsStaged target candidate ∧ s.hasEvidence = false := by
  unfold PhaseFine at h
  rwa [hp] at h

theorem PhaseFine.firstBoot (h : PhaseFine s) (hp : s.phase = .firstBoot) :
    ∃ candidate target nonce, s.candidate = some candidate ∧ s.targetSlot = some target ∧
      target ≠ s.activeSlot ∧ s.selectedSlot = target ∧ s.holdsStaged target candidate ∧
      s.currentAttemptNonce = some nonce ∧ nonce ∈ s.usedAttemptNonces ∧
      (∀ o, s.bootObservation = some o → o.binds s target candidate) ∧
      ∀ h, s.healthAcknowledgement = some h → h.binds s target candidate := by
  unfold PhaseFine at h
  rwa [hp] at h

/-- An update never targets the active slot. -/
theorem PhaseFine.target_ne (h : PhaseFine s) {target : SlotName}
    (ht : s.targetSlot = some target) : target ≠ s.activeSlot := by
  unfold PhaseFine at h
  split at h
  · rw [h.2.1] at ht
    cases ht
  · obtain ⟨_, t, -, ht', hne, -⟩ := h
    cases ht.symm.trans ht'
    exact hne
  · obtain ⟨_, t, -, ht', hne, -⟩ := h
    cases ht.symm.trans ht'
    exact hne
  · obtain ⟨_, t, -, ht', hne, -⟩ := h
    cases ht.symm.trans ht'
    exact hne
  · obtain ⟨_, t, -, ht', hne, -⟩ := h
    cases ht.symm.trans ht'
    exact hne
  · obtain ⟨_, t, _, -, ht', hne, -⟩ := h
    cases ht.symm.trans ht'
    exact hne

/-- An update past its verification has a candidate. -/
theorem PhaseFine.candidate (h : PhaseFine s) (hp : s.phase.verified = true) :
    ∃ a, s.candidate = some a := by
  cases hphase : s.phase with
  | idle | download | verify =>
    rw [hphase] at hp
    cases hp
  | write =>
    obtain ⟨a, _, ha, -⟩ := h.early (Or.inr (Or.inr hphase))
    exact ⟨a, ha⟩
  | select =>
    obtain ⟨a, _, ha, -⟩ := h.select hphase
    exact ⟨a, ha⟩
  | firstBoot =>
    obtain ⟨a, _, _, ha, -⟩ := h.firstBoot hphase
    exact ⟨a, ha⟩

theorem holdsStaged_iff {target : SlotName} {candidate : ReleaseArtifact} :
    s.holdsStaged target candidate = true ↔
      (s.slot target).status = .staged ∧ (s.slot target).artifact = some candidate := by
  simp [BootState.holdsStaged]

theorem hasEvidence_eq_false : s.hasEvidence = false ↔ s.currentAttemptNonce = none ∧
    s.bootObservation = none ∧ s.healthAcknowledgement = none := by
  simp [BootState.hasEvidence, and_assoc]

end Phases

/-! ## Steps -/

/-- The fields a failed attempt resets. -/
def BootState.retried (s : BootState) : BootState :=
  { s with
    phase := .select
    trialFailures := s.trialFailures + 1
    currentAttemptNonce := none
    bootObservation := none
    healthAcknowledgement := none }

/-- The target's record given the status, the update dropped and the active slot selected. -/
def BootState.fallenBack (s : BootState) (target : SlotName) (artifact : ReleaseArtifact)
    (failures : Int) : BootState :=
  { s.cleared with
    slots := replaceSlot s ⟨(s.slot target).identity, some artifact, .rejected⟩
    trialFailures := failures }

/-- The records a commit writes. -/
def BootState.retainedRecord (s : BootState) : SlotRecord :=
  ⟨(s.slot s.activeSlot).identity, (s.slot s.activeSlot).artifact, .retained⟩

def BootState.activatedRecord (s : BootState) (target : SlotName) (artifact : ReleaseArtifact) :
    SlotRecord :=
  ⟨(s.slot target).identity, some artifact, .active⟩

/-- The state after a commit. -/
def BootState.committed (s : BootState) (target : SlotName) (artifact : ReleaseArtifact) :
    BootState :=
  { s with
    slots := replaceSlotTuple (replaceSlot s s.retainedRecord) (s.activatedRecord target artifact)
    activeSlot := target
    selectedSlot := target
    phase := .idle
    candidate := none
    targetSlot := none
    minimumReleaseSequence := artifact.identity.releaseSequence
    trialFailures := 0
    currentAttemptNonce := none
    bootObservation := none
    healthAcknowledgement := none }

/-- The acknowledgement that `ACK_ESSENTIAL_HEALTH` stores. -/
def BootState.acknowledgement (s : BootState) (nonce : String) (target : SlotName)
    (candidate : ReleaseArtifact) (o : BootObservation) : EssentialHealthAcknowledgement :=
  { attemptNonce := nonce
    slot := target
    releaseManifestSha256 := candidate.identity.manifestSha256
    observationReceiptSha256 := o.persistenceReceiptSha256
    healthyServices := s.essentialServices
    acknowledgedAtGeneration := s.generation }

/-- **What a command can do**, one constructor for each branch of `_dispatch`. -/
inductive Step (G : TransitionGuards) (s : BootState) (c : BootCommand) :
    BootState → Prop where
  | beginDownload {target : SlotName} {artifact : ReleaseArtifact}
      (kind : c.kind = .beginDownload) (phase : s.phase = .idle)
      (hasTarget : c.targetSlot = some target) (hasArtifact : c.artifact = some artifact)
      (inactive : target ≠ s.activeSlot)
      (other : ∀ a, (s.slot s.activeSlot).artifact = some a → artifact.identity ≠ a.identity) :
      Step G s c { s with
        phase := .download
        candidate := some artifact
        targetSlot := some target
        trialFailures := 0 }
  | downloadComplete (kind : c.kind = .downloadComplete) (phase : s.phase = .download) :
      Step G s c { s with phase := .verify }
  | verifyTampered {tamper : TamperObservation} (kind : c.kind = .verifyComplete)
      (phase : s.phase = .verify) :
      Step G s c { s.cleared with tamperObservations := s.tamperObservations ++ [tamper] }
  | verifyRefused (kind : c.kind = .verifyComplete) (phase : s.phase = .verify) :
      Step G s c s.cleared
  | verified {candidate artifact : ReleaseArtifact} (kind : c.kind = .verifyComplete)
      (phase : s.phase = .verify) (hasArtifact : c.artifact = some artifact)
      (hasCandidate : s.candidate = some candidate) (same : artifact.identity = candidate.identity)
      (trusted : artifact.trustedAndVerified = true)
      (compatible : artifact.identity.dataCompatibilityId = s.dataCheckpoint.schemaId)
      (newer : s.minimumReleaseSequence < artifact.identity.releaseSequence) :
      Step G s c { s with phase := .write, candidate := some artifact }
  | written {target : SlotName} {candidate : ReleaseArtifact} (kind : c.kind = .writeComplete)
      (phase : s.phase = .write) (hasTarget : s.targetSlot = some target)
      (hasCandidate : s.candidate = some candidate)
      (trusted : candidate.trustedAndVerified = true) :
      Step G s c { s with
        slots := replaceSlot s ⟨(s.slot target).identity, some candidate, .staged⟩
        phase := .select }
  | selected {target : SlotName} (kind : c.kind = .selectTrial) (phase : s.phase = .select)
      (hasTarget : s.targetSlot = some target) (unselected : s.selectedSlot ≠ target) :
      Step G s c { s with selectedSlot := target }
  | firstBoot {target : SlotName} {nonce : String} (kind : c.kind = .beginFirstBoot)
      (phase : s.phase = .select) (hasTarget : s.targetSlot = some target)
      (hasNonce : c.attemptNonce = some nonce) (selected : s.selectedSlot = target)
      (fresh : nonce ∉ s.usedAttemptNonces) :
      Step G s c { s with
        phase := .firstBoot
        currentAttemptNonce := some nonce
        usedAttemptNonces := s.usedAttemptNonces ++ [nonce] }
  | observed {target : SlotName} {candidate : ReleaseArtifact} {o : BootObservation}
      (kind : c.kind = .recordBootObservation) (phase : s.phase = .firstBoot)
      (unobserved : s.bootObservation = none) (hasObservation : c.bootObservation = some o)
      (persisted : G.bootObservationVerifier.verifyPersisted o = true)
      (hasTarget : s.targetSlot = some target) (hasCandidate : s.candidate = some candidate)
      (binds : o.binds s target candidate = true) :
      Step G s c { s with bootObservation := some o }
  | misobserved {target : SlotName} {artifact : ReleaseArtifact} {tamper : TamperObservation}
      (kind : c.kind = .recordBootObservation) (phase : s.phase = .firstBoot)
      (hasTarget : s.targetSlot = some target)
      (hasArtifact : (s.slot target).artifact = some artifact) :
      Step G s c { s.fallenBack target artifact s.trialFailures with
        tamperObservations := s.tamperObservations ++ [tamper] }
  | retry (kind : c.kind = .trialFailure ∨ c.kind = .reconcilePowerLoss)
      (phase : s.phase = .firstBoot) (few : s.trialFailures + 1 < maxTrialFailures) :
      Step G s c s.retried
  | fallback {target : SlotName} {artifact : ReleaseArtifact}
      (kind : c.kind = .trialFailure ∨ c.kind = .reconcilePowerLoss)
      (phase : s.phase = .firstBoot) (many : maxTrialFailures ≤ s.trialFailures + 1)
      (hasTarget : s.targetSlot = some target)
      (hasArtifact : (s.slot target).artifact = some artifact) :
      Step G s c (s.fallenBack target artifact (s.trialFailures + 1))
  | healthy {target : SlotName} {candidate : ReleaseArtifact} {nonce : String}
      {o : BootObservation} (kind : c.kind = .ackEssentialHealth) (phase : s.phase = .firstBoot)
      (observed : s.bootObservation = some o) (services : c.healthyServices = s.essentialServices)
      (hasTarget : s.targetSlot = some target) (hasCandidate : s.candidate = some candidate)
      (hasNonce : s.currentAttemptNonce = some nonce) :
      Step G s c { s with
        healthAcknowledgement := some (s.acknowledgement nonce target candidate o) }
  | commit {target : SlotName} {artifact : ReleaseArtifact} {o : BootObservation}
      {h : EssentialHealthAcknowledgement} (kind : c.kind = .commitTrial)
      (phase : s.phase = .firstBoot) (observed : s.bootObservation = some o)
      (healthy : s.healthAcknowledgement = some h) (hasTarget : s.targetSlot = some target)
      (hasArtifact : (s.slot target).artifact = some artifact)
      (readable : G.dataCheckpointOracle.isReadable s.dataCheckpoint artifact.identity = true) :
      Step G s c (s.committed target artifact)
  | checkpoint {proposed : DataCheckpoint} {writer : ReleaseIdentity}
      (kind : c.kind = .ackDataCheckpoint) (hasCheckpoint : c.dataCheckpoint = some proposed)
      (running : s.observedRunningRelease = .ok writer)
      (later : s.dataCheckpoint.generation ≤ proposed.generation)
      (same : proposed.generation = s.dataCheckpoint.generation →
        proposed.sha256 = s.dataCheckpoint.sha256)
      (written : proposed.writerReleaseManifestSha256 = writer.manifestSha256)
      (schema : proposed.schemaId = writer.dataCompatibilityId)
      (durable : G.dataCheckpointOracle.verifyDurable proposed = true)
      (readable : s.phase = .firstBoot → ∀ a, (s.slot s.activeSlot).artifact = some a →
        G.dataCheckpointOracle.isReadable proposed a.identity = true) :
      Step G s c { s with dataCheckpoint := proposed }
  | stable (kind : c.kind = .reconcilePowerLoss) (phase : s.phase = .idle) : Step G s c s
  | lostEarly (kind : c.kind = .reconcilePowerLoss)
      (phase : s.phase = .download ∨ s.phase = .verify) : Step G s c s.cleared
  | lostWrite {target : SlotName} {candidate : ReleaseArtifact}
      (kind : c.kind = .reconcilePowerLoss) (phase : s.phase = .write)
      (hasTarget : s.targetSlot = some target) (hasCandidate : s.candidate = some candidate) :
      Step G s c { s with
        slots := replaceSlot s ⟨(s.slot target).identity, some candidate, .rejected⟩
        selectedSlot := s.activeSlot
        phase := .idle
        candidate := none
        targetSlot := none }
  | lostSelect (kind : c.kind = .reconcilePowerLoss) (phase : s.phase = .select) :
      Step G s c { s with
        selectedSlot := s.activeSlot
        phase := .idle
        candidate := none
        targetSlot := none }
  | rotate {epoch : Int} {owner : String} (kind : c.kind = .rotateFence) (phase : s.phase = .idle)
      (hasEpoch : c.newFenceEpoch = some epoch) (hasOwner : c.newFenceOwnerToken = some owner)
      (next : epoch = s.fenceEpoch + 1) (other : owner ≠ s.fenceOwnerToken)
      (fresh : owner ∉ s.retiredFenceOwnerTokens) :
      Step G s c { s with
        fenceEpoch := epoch
        fenceOwnerToken := owner
        retiredFenceOwnerTokens := s.retiredFenceOwnerTokens ++ [s.fenceOwnerToken] }

/-! ## Steps keep the validator content -/

section WellFormed

theorem BootState.WellFormed.active (h : s.WellFormed) :
    ∃ a, (s.slot s.activeSlot).artifact = some a := by
  obtain ⟨a, ha, -⟩ := h.slots.artifact
  exact ⟨a, ha⟩

/-- An abandoned update leaves a fine idle state. -/
theorem BootState.WellFormed.cleared (h : s.WellFormed) : s.cleared.WellFormed :=
  { h with phase := ⟨rfl, rfl, rfl, rfl⟩ }

theorem BootState.WellFormed.fallenBack (h : s.WellFormed) {target : SlotName}
    {artifact : ReleaseArtifact} {failures : Int} (hne : target ≠ s.activeSlot)
    (hfailures : 0 ≤ failures ∧ failures ≤ 3) : (s.fallenBack target artifact failures).WellFormed :=
  { h with
    slots := h.slots.replace rfl hne (fun he => by cases he)
    failures := hfailures
    phase := ⟨rfl, rfl, rfl, rfl⟩ }

theorem step_wellFormed (h : Step G s c s') (hs : s.Sound sha256) (hc : c.Fine) :
    s'.WellFormed := by
  have hw := hs.wellFormed
  cases h with
  | @beginDownload target artifact kind phase hasTarget hasArtifact inactive other =>
    obtain ⟨-, -, hselected, hevidence⟩ := hw.phase.idle phase
    exact { hw with
      failures := ⟨le_refl (0 : Int), by simp⟩
      phase := ⟨artifact, target, rfl, rfl, inactive, hselected, hevidence⟩ }
  | downloadComplete kind phase => exact { hw with phase := hw.phase.early (Or.inl phase) }
  | verifyTampered kind phase => exact { hw.cleared with }
  | verifyRefused kind phase => exact hw.cleared
  | @verified candidate artifact kind phase hasArtifact hasCandidate same trusted compatible newer =>
    obtain ⟨_, target, -, htarget, hrest⟩ := hw.phase.early (Or.inr (Or.inl phase))
    exact { hw with phase := ⟨artifact, target, rfl, htarget, hrest⟩ }
  | @written target candidate kind phase hasTarget hasCandidate trusted =>
    obtain ⟨_, t, hcandidate, ht, hne, hselected, hevidence⟩ :=
      hw.phase.early (Or.inr (Or.inr phase))
    rw [hasTarget] at ht
    cases ht
    refine { hw with
      slots := hw.slots.replace rfl hne fun he => by cases he
      phase := ⟨candidate, target, hasCandidate, hasTarget, hne, Or.inl hselected, ?_, hevidence⟩ }
    rw [holdsStaged_iff, slot_of_replaced (r := ⟨(s.slot target).identity, some candidate, .staged⟩)
      (n := target) hw.slots rfl rfl, if_pos rfl]
    exact ⟨rfl, rfl⟩
  | @selected target kind phase hasTarget unselected =>
    obtain ⟨candidate, t, hcandidate, ht, hne, -, hstaged, hevidence⟩ := hw.phase.select phase
    rw [hasTarget] at ht
    cases ht
    refine { hw with phase := ?_ }
    unfold PhaseFine
    rw [phase]
    exact ⟨candidate, target, hcandidate, hasTarget, hne, Or.inr rfl, hstaged, hevidence⟩
  | @firstBoot target nonce kind phase hasTarget hasNonce selected fresh =>
    obtain ⟨candidate, t, hcandidate, ht, hne, -, hstaged, hevidence⟩ := hw.phase.select phase
    rw [hasTarget] at ht
    cases ht
    obtain ⟨-, hobservation, hhealth⟩ := hasEvidence_eq_false.mp hevidence
    exact { hw with
      nonces := ⟨List.forall_mem_append.mpr ⟨hw.nonces.1, by simpa using hc.nonce nonce hasNonce⟩,
        List.nodup_append.mpr ⟨hw.nonces.2, List.nodup_singleton _, fun a ha b hb heq => by
          rw [List.mem_singleton.mp hb] at heq
          exact fresh (heq ▸ ha)⟩⟩
      phase := ⟨candidate, target, nonce, hcandidate, hasTarget, hne, selected, hstaged, rfl,
        List.mem_append_right _ List.mem_cons_self,
        fun o ho => by simp [hobservation] at ho, fun h hh => by simp [hhealth] at hh⟩ }
  | @observed target candidate o kind phase unobserved hasObservation persisted hasTarget
      hasCandidate binds =>
    obtain ⟨a, t, nonce, ha, ht, hne, hselected, hstaged, hnonce, hused, -, hhealth⟩ :=
      hw.phase.firstBoot phase
    rw [hasTarget] at ht
    rw [hasCandidate] at ha
    cases ht
    cases ha
    refine { hw with phase := ?_ }
    unfold PhaseFine
    rw [phase]
    refine ⟨candidate, target, nonce, hasCandidate, hasTarget, hne, hselected, hstaged, hnonce,
      hused, fun o' ho' => ?_, fun h hh => ?_⟩
    · cases ho'
      exact binds
    · have := hhealth h hh
      rw [EssentialHealthAcknowledgement.binds, unobserved] at this
      cases this
  | @misobserved target artifact tamper kind phase hasTarget hasArtifact =>
    obtain ⟨_, t, _, -, ht, hne, -⟩ := hw.phase.firstBoot phase
    rw [hasTarget] at ht
    cases ht
    exact { hw.fallenBack hne hw.failures with }
  | retry kind phase few =>
    obtain ⟨candidate, target, _, hcandidate, ht, hne, hselected, hstaged, -⟩ :=
      hw.phase.firstBoot phase
    have hfew : s.trialFailures + 1 < 3 := few
    exact { hw with
      failures := ⟨by have := hw.failures.1; simp only [BootState.retried]; omega,
        by simp only [BootState.retried]; omega⟩
      phase := ⟨candidate, target, hcandidate, ht, hne, Or.inr hselected, hstaged, rfl⟩ }
  | @fallback target artifact kind phase many hasTarget hasArtifact =>
    obtain ⟨_, t, _, -, ht, hne, -⟩ := hw.phase.firstBoot phase
    rw [hasTarget] at ht
    cases ht
    have := hs.failures (by rw [phase]; decide)
    have := hw.failures.1
    exact hw.fallenBack hne ⟨by omega, by omega⟩
  | @healthy target candidate nonce o kind phase observed services hasTarget hasCandidate hasNonce =>
    obtain ⟨a, t, n, ha, ht, hne, hselected, hstaged, hnonce, hused, hobserved, -⟩ :=
      hw.phase.firstBoot phase
    rw [hasTarget] at ht
    rw [hasCandidate] at ha
    rw [hasNonce] at hnonce
    cases ht
    cases ha
    cases hnonce
    refine { hw with phase := ?_ }
    unfold PhaseFine
    rw [phase]
    refine ⟨candidate, target, nonce, hasCandidate, hasTarget, hne, hselected, hstaged, hasNonce,
      hused, hobserved, fun h hh => ?_⟩
    cases hh
    simp [EssentialHealthAcknowledgement.binds, BootState.acknowledgement, observed, hasNonce]
  | @commit target artifact o h kind phase observed healthy hasTarget hasArtifact readable =>
    obtain ⟨_, t, _, -, ht, hne, -⟩ := hw.phase.firstBoot phase
    rw [hasTarget] at ht
    cases ht
    exact { hw with
      slots := SlotsFine.commit s.retainedRecord (s.activatedRecord target artifact) hw.slots hne rfl rfl
        (fun he => by cases he) rfl rfl
      failures := ⟨le_refl (0 : Int), by simp [BootState.committed]⟩
      phase := ⟨rfl, rfl, rfl, rfl⟩ }
  | @checkpoint proposed writer kind hasCheckpoint running later same written schema durable
      readable => exact { hw with }
  | stable kind phase => exact hw
  | lostEarly kind phase => exact hw.cleared
  | @lostWrite target candidate kind phase hasTarget hasCandidate =>
    obtain ⟨_, t, -, ht, hne, -, hevidence⟩ := hw.phase.early (Or.inr (Or.inr phase))
    rw [hasTarget] at ht
    cases ht
    exact { hw with
      slots := hw.slots.replace rfl hne fun he => by cases he
      phase := ⟨rfl, rfl, rfl, hevidence⟩ }
  | lostSelect kind phase =>
    obtain ⟨_, _, -, -, -, -, -, hevidence⟩ := hw.phase.select phase
    exact { hw with phase := ⟨rfl, rfl, rfl, hevidence⟩ }
  | @rotate epoch owner kind phase hasEpoch hasOwner next other fresh =>
    refine { hw with
      fence :=
        { positive := hc.epoch epoch hasEpoch
          text := hc.owner owner hasOwner
          texts := List.forall_mem_append.mpr ⟨hw.fence.texts, by simpa using hw.fence.text⟩
          nodup := ?_
          fresh := ?_ }
      phase := ?_ }
    · refine List.nodup_append.mpr ⟨hw.fence.nodup, List.nodup_singleton _, fun a ha b hb heq => ?_⟩
      rw [List.mem_singleton.mp hb] at heq
      exact hw.fence.fresh (heq ▸ ha)
    · simp only [List.mem_append, List.mem_singleton]
      exact fun h => h.elim fresh other
    · unfold PhaseFine
      rw [phase]
      exact hw.phase.idle phase

end WellFormed

/-! ## Steps keep states sound -/

section Sound

theorem slotCheck_of_trusted {i : SlotIdentity} {a : ReleaseArtifact} {status : SlotStatus}
    (hstatus : status ≠ .empty) (ha : a.trustedAndVerified = true) :
    SlotRecord.check ⟨i, some a, status⟩ = .ok () := by
  rw [SlotRecord.check, if_neg hstatus]
  simp [raiseIf, ha]

theorem slotCheck_rejected (i : SlotIdentity) (a : ReleaseArtifact) :
    SlotRecord.check ⟨i, some a, .rejected⟩ = .ok () := by
  simp [SlotRecord.check, raiseIf]

theorem trusted_of_slotCheck {r : SlotRecord} {a : ReleaseArtifact} (h : r.check = .ok ())
    (hstatus : r.status = .active ∨ r.status = .staged) (ha : r.artifact = some a) :
    a.trustedAndVerified = true := by
  unfold SlotRecord.check at h
  rcases hstatus with hstatus | hstatus <;> simpa [hstatus, ha, raiseIf_eq_ok] using h

/-- Who writes the shared data. -/
theorem observedRunningRelease_eq_ok {writer : ReleaseIdentity}
    (h : s.observedRunningRelease = .ok writer) :
    (s.phase ≠ .firstBoot ∧ ∃ a, (s.slot s.activeSlot).artifact = some a ∧ writer = a.identity) ∨
      (s.phase = .firstBoot ∧ ∃ a, s.candidate = some a ∧ writer = a.identity) := by
  unfold BootState.observedRunningRelease at h
  split at h
  · rename_i hp
    cases ho : s.bootObservation <;> cases hc : s.candidate <;> rw [ho, hc] at h <;> cases h
    exact Or.inr ⟨hp, _, rfl, rfl⟩
  · rename_i hp
    simp only [bind_eq_ok, BootState.slotArtifact, Boot.present, pure_eq_ok] at h
    obtain ⟨a, ha, rfl⟩ := h
    split at ha
    · rename_i a' ha'
      cases ha
      exact Or.inl ⟨hp, a, ha', rfl⟩
    · cases ha

/-- A step that keeps the active record, the floor and the checkpoint, and leaves idle or keeps the
candidate, keeps what `Sound` adds. -/
theorem BootState.Sound.of_kept (hs : s.Sound sha256) (hw : s'.WellFormed)
    (hslots : ∀ n, (s'.slot n).check = .ok ()) (hoperations : s'.operations = s.operations)
    (hfailures : s'.phase ≠ .idle → s'.trialFailures ≤ 2) (hactive : s'.activeSlot = s.activeSlot)
    (hslot : s'.slot s.activeSlot = s.slot s.activeSlot)
    (hfloor : s'.minimumReleaseSequence = s.minimumReleaseSequence)
    (hdata : s'.dataCheckpoint = s.dataCheckpoint)
    (hverified : s'.phase.verified = true → s.phase.verified = true ∧ s'.candidate = s.candidate) :
    s'.Sound sha256 where
  wellFormed := hw
  slotsChecked := hslots
  recordsChecked := by rw [hoperations]; exact hs.recordsChecked
  failures := hfailures
  floor a ha := by
    rw [hactive, hslot] at ha
    rw [hfloor]
    exact hs.floor a ha
  schema a ha := by
    rw [hactive, hslot] at ha
    rw [hdata]
    exact hs.schema a ha
  verified hp a ha := by
    obtain ⟨hp, hc⟩ := hverified hp
    rw [hc] at ha
    rw [hfloor, hdata]
    exact hs.verified hp a ha

/-- The same of a step that replaces the record of the target. -/
theorem BootState.Sound.of_replaced (hs : s.Sound sha256) (hw : s'.WellFormed) {target : SlotName}
    {a : ReleaseArtifact} {status : SlotStatus}
    (hcheck : SlotRecord.check ⟨(s.slot target).identity, some a, status⟩ = .ok ())
    (hne : target ≠ s.activeSlot)
    (hslots : s'.slots = replaceSlot s ⟨(s.slot target).identity, some a, status⟩)
    (hoperations : s'.operations = s.operations)
    (hfailures : s'.phase ≠ .idle → s'.trialFailures ≤ 2) (hactive : s'.activeSlot = s.activeSlot)
    (hfloor : s'.minimumReleaseSequence = s.minimumReleaseSequence)
    (hdata : s'.dataCheckpoint = s.dataCheckpoint)
    (hverified : s'.phase.verified = true → s.phase.verified = true ∧ s'.candidate = s.candidate) :
    s'.Sound sha256 := by
  have hslot := slot_of_replaced (n := target) hs.wellFormed.slots hslots rfl
  refine hs.of_kept hw (fun n => ?_) hoperations hfailures hactive
    (by rw [hslot, if_neg (Ne.symm hne)]) hfloor hdata hverified
  rw [hslot]
  split
  · exact hcheck
  · exact hs.slotsChecked n

theorem committed_sound {target : SlotName} {candidate : ReleaseArtifact} (hs : s.Sound sha256)
    (hw : (s.committed target candidate).WellFormed) (hp : s.phase = .firstBoot)
    (hne : target ≠ s.activeSlot) (hcandidate : s.candidate = some candidate)
    (hstaged : (s.slot target).status = .staged)
    (hartifact : (s.slot target).artifact = some candidate) :
    (s.committed target candidate).Sound sha256 := by
  have hslot : ∀ m, (s.committed target candidate).slot m =
      if m = target then s.activatedRecord target candidate else s.retainedRecord := fun m =>
    slotOf_commit s.retainedRecord (s.activatedRecord target candidate) hs.wellFormed.slots hne rfl
      rfl m
  have htrusted := trusted_of_slotCheck (hs.slotsChecked target) (Or.inr hstaged) hartifact
  obtain ⟨a, ha⟩ := hs.wellFormed.active
  have hold := trusted_of_slotCheck (hs.slotsChecked s.activeSlot)
    (Or.inl hs.wellFormed.slots.status) ha
  have hnew : (s.committed target candidate).slot target = s.activatedRecord target candidate := by
    rw [hslot, if_pos rfl]
  refine ⟨hw, fun n => ?_, hs.recordsChecked, fun h => absurd rfl h, fun x hx => ?_, fun x hx => ?_,
    fun h => by cases h⟩
  · rw [hslot]
    split
    · exact slotCheck_of_trusted (fun h => by cases h) htrusted
    · rw [BootState.retainedRecord, ha]
      exact slotCheck_of_trusted (fun h => by cases h) hold
  · have : some candidate = some x := by rw [← hx]; exact (congrArg SlotRecord.artifact hnew).symm
    cases this
    rfl
  · have : some candidate = some x := by rw [← hx]; exact (congrArg SlotRecord.artifact hnew).symm
    cases this
    exact (hs.verified (by rw [hp]; rfl) candidate hcandidate).2.2.symm

theorem step_sound (h : Step G s c s') (hs : s.Sound sha256) (hc : c.Fine) :
    s'.Sound sha256 := by
  have hw' := step_wellFormed h hs hc
  have hw := hs.wellFormed
  cases h with
  | beginDownload kind phase hasTarget hasArtifact inactive other =>
    exact hs.of_kept hw' hs.slotsChecked rfl (fun _ => by simp) rfl rfl rfl rfl
      (fun h => by cases h)
  | downloadComplete kind phase =>
    exact hs.of_kept hw' hs.slotsChecked rfl (fun _ => hs.failures (by rw [phase]; decide)) rfl rfl
      rfl rfl (fun h => by cases h)
  | verifyTampered kind phase | verifyRefused kind phase =>
    exact hs.of_kept hw' hs.slotsChecked rfl (fun h => absurd rfl h) rfl rfl rfl rfl
      (fun h => by cases h)
  | verified kind phase hasArtifact hasCandidate same trusted compatible newer =>
    exact { hs with
      wellFormed := hw'
      failures := fun _ => hs.failures (by rw [phase]; decide)
      verified := fun _ a ha => by
        cases ha
        exact ⟨trusted, newer, compatible⟩ }
  | written kind phase hasTarget hasCandidate trusted =>
    obtain ⟨_, t, -, ht, hne, -⟩ := hw.phase.early (Or.inr (Or.inr phase))
    rw [hasTarget] at ht
    cases ht
    exact hs.of_replaced hw' (slotCheck_of_trusted (fun h => by cases h) trusted) hne rfl rfl
      (fun _ => hs.failures (by rw [phase]; decide)) rfl rfl rfl
      (fun _ => ⟨by rw [phase]; rfl, rfl⟩)
  | selected kind phase hasTarget unselected =>
    exact hs.of_kept hw' hs.slotsChecked rfl (fun _ => hs.failures (by rw [phase]; decide)) rfl rfl
      rfl rfl (fun h => ⟨h, rfl⟩)
  | firstBoot kind phase hasTarget hasNonce selected fresh =>
    exact hs.of_kept hw' hs.slotsChecked rfl (fun _ => hs.failures (by rw [phase]; decide)) rfl rfl
      rfl rfl (fun _ => ⟨by rw [phase]; rfl, rfl⟩)
  | observed kind phase unobserved hasObservation persisted hasTarget hasCandidate binds =>
    exact hs.of_kept hw' hs.slotsChecked rfl hs.failures rfl rfl rfl rfl (fun h => ⟨h, rfl⟩)
  | misobserved kind phase hasTarget hasArtifact =>
    obtain ⟨_, t, _, -, ht, hne, -⟩ := hw.phase.firstBoot phase
    rw [hasTarget] at ht
    cases ht
    exact hs.of_replaced hw' (slotCheck_rejected _ _) hne rfl rfl (fun h => absurd rfl h) rfl rfl rfl
      (fun h => by cases h)
  | retry kind phase few =>
    have hfew : s.trialFailures + 1 < 3 := few
    exact hs.of_kept hw' hs.slotsChecked rfl
      (fun _ => by simp only [BootState.retried]; omega) rfl rfl rfl rfl
      (fun _ => ⟨by rw [phase]; rfl, rfl⟩)
  | fallback kind phase many hasTarget hasArtifact =>
    obtain ⟨_, t, _, -, ht, hne, -⟩ := hw.phase.firstBoot phase
    rw [hasTarget] at ht
    cases ht
    exact hs.of_replaced hw' (slotCheck_rejected _ _) hne rfl rfl (fun h => absurd rfl h) rfl rfl rfl
      (fun h => by cases h)
  | healthy kind phase observed services hasTarget hasCandidate hasNonce =>
    exact hs.of_kept hw' hs.slotsChecked rfl hs.failures rfl rfl rfl rfl (fun h => ⟨h, rfl⟩)
  | commit kind phase observed healthy hasTarget hasArtifact readable =>
    obtain ⟨candidate, t, _, hcandidate, ht, hne, -, hstaged, -⟩ := hw.phase.firstBoot phase
    rw [hasTarget] at ht
    cases ht
    obtain ⟨hstatus, hartifact⟩ := holdsStaged_iff.mp hstaged
    rw [hasArtifact] at hartifact
    cases hartifact
    exact committed_sound hs hw' phase hne hcandidate hstatus hasArtifact
  | @checkpoint proposed writer kind hasCheckpoint running later same written schema durable
      readable =>
    -- the writer's schema is the one on file: the active release's, or the candidate's in a trial
    have hsame : proposed.schemaId = s.dataCheckpoint.schemaId := by
      obtain ⟨-, a, ha, rfl⟩ | ⟨hp, a, ha, rfl⟩ := observedRunningRelease_eq_ok running
      · rw [schema, hs.schema a ha]
      · rw [schema, (hs.verified (by rw [hp]; rfl) a ha).2.2]
    exact { hs with
      wellFormed := hw'
      schema := fun a ha => hsame.trans (hs.schema a ha)
      verified := fun hp a ha => by
        obtain ⟨htrusted, hnewer, hcompatible⟩ := hs.verified hp a ha
        exact ⟨htrusted, hnewer, hcompatible.trans hsame.symm⟩ }
  | stable kind phase => exact hs
  | lostEarly kind phase =>
    exact hs.of_kept hw' hs.slotsChecked rfl (fun h => absurd rfl h) rfl rfl rfl rfl
      (fun h => by cases h)
  | lostWrite kind phase hasTarget hasCandidate =>
    obtain ⟨_, t, -, ht, hne, -⟩ := hw.phase.early (Or.inr (Or.inr phase))
    rw [hasTarget] at ht
    cases ht
    exact hs.of_replaced hw' (slotCheck_rejected _ _) hne rfl rfl (fun h => absurd rfl h) rfl rfl rfl
      (fun h => by cases h)
  | lostSelect kind phase =>
    exact hs.of_kept hw' hs.slotsChecked rfl (fun h => absurd rfl h) rfl rfl rfl rfl
      (fun h => by cases h)
  | rotate kind phase hasEpoch hasOwner next other fresh =>
    exact hs.of_kept hw' hs.slotsChecked rfl hs.failures rfl rfl rfl rfl (fun h => ⟨h, rfl⟩)

end Sound

end LumaOS.Boot
