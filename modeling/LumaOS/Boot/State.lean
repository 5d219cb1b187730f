import LumaOS.Boot.Values

/-!
# The durable boot state

Model of `boot_control.py:353-595` and `1472-1542`: the operation ledger, the complete durable
state of the controller with its validator `BootState.__post_init__`, and the canonical bytes that
are authenticated.

`BootState.check` is the validator in the order of the source. Each of its parts is equivalent to a
condition on the fields it reads (`checkSlots_eq_ok`, `checkPhase_eq_ok`, ...), so that the parts a
command does not touch carry over; `BootState.WellFormed` is their conjunction.

SHA-256 is the parameter `sha256`.
-/

namespace LumaOS.Boot

open LumaOS.Base LumaOS.Text LumaOS.Json

variable (sha256 : Bytes → Vector UInt8 32)

/-- `hashlib.sha256(...).hexdigest()`. -/
def hexdigest (bytes : Bytes) : String := hex (sha256 bytes).toList

/-! ## The operation ledger -/

def maxTrialFailures : Int := 3

/-- `_CHAIN_ORIGIN`. -/
def chainOrigin : String := String.ofList (List.replicate 64 '0')

structure OperationRecord where
  operationId : String
  kind : CommandKind
  requestSha256 : String
  appliedGeneration : Int
  outcome : String
  previousRecordSha256 : String
  recordSha256 : String
deriving DecidableEq

/-- `_operation_record_digest`. -/
def operationRecordDigest (operationId : String) (kind : CommandKind) (requestSha256 : String)
    (appliedGeneration : Int) (outcome previousRecordSha256 : String) : String :=
  hexdigest sha256 (toVec (.object [
    ("applied_generation", .number appliedGeneration),
    ("kind", .string kind.value),
    ("operation_id", .string operationId),
    ("outcome", .string outcome),
    ("previous_record_sha256", .string previousRecordSha256),
    ("request_sha256", .string requestSha256)]))

/-- The digest that a record's `__post_init__` expects. -/
def OperationRecord.digest (r : OperationRecord) : String :=
  operationRecordDigest sha256 r.operationId r.kind r.requestSha256 r.appliedGeneration r.outcome
    r.previousRecordSha256

/-- `OperationRecord.__post_init__`. -/
def OperationRecord.check (r : OperationRecord) : Except Raised Unit := do
  checkText 256 "operation_id" r.operationId
  checkDigest "request_sha256" r.requestSha256
  checkPositive "applied_generation" r.appliedGeneration
  checkText 256 "outcome" r.outcome
  checkDigest "previous_record_sha256" r.previousRecordSha256
  checkDigest "record_sha256" r.recordSha256
  raiseIf (r.recordSha256 != r.digest sha256) (invalid "operation record hash is invalid")

/-- The loop over `previous` in `BootState.__post_init__`. -/
def chained (previous : String) : List OperationRecord → Bool
  | [] => true
  | r :: rs => r.previousRecordSha256 == previous && chained r.recordSha256 rs

/-- `operations[-1].record_sha256 if operations else _CHAIN_ORIGIN`. -/
def lastRecord (operations : List OperationRecord) : String :=
  (operations.getLast?.map OperationRecord.recordSha256).getD chainOrigin

/-- `tuple(range(1, generation + 1))`. -/
def generations (generation : Int) : List Int :=
  (List.range generation.toNat).map fun (n : Nat) => (n : Int) + 1

/-! ## The state -/

structure BootState where
  controllerId : String
  slots : SlotRecord × SlotRecord
  activeSlot : SlotName
  selectedSlot : SlotName
  phase : UpdatePhase
  candidate : Option ReleaseArtifact
  targetSlot : Option SlotName
  minimumReleaseSequence : Int
  trialFailures : Int
  essentialServices : List String
  currentAttemptNonce : Option String
  usedAttemptNonces : List String
  bootObservation : Option BootObservation
  healthAcknowledgement : Option EssentialHealthAcknowledgement
  dataCheckpoint : DataCheckpoint
  fenceEpoch : Int
  fenceOwnerToken : String
  retiredFenceOwnerTokens : List String
  tamperObservations : List TamperObservation
  generation : Int := 0
  operations : List OperationRecord := []
  authenticationTag : String := "pending"
deriving DecidableEq

/-- `by_name[name]`; the two records have the two names. -/
def slotOf (slots : SlotRecord × SlotRecord) (name : SlotName) : SlotRecord :=
  if slots.1.identity.name = name then slots.1 else slots.2

/-- `BootState.slot`. -/
def BootState.slot (s : BootState) (name : SlotName) : SlotRecord := slotOf s.slots name

/-- `_replace_slot_tuple`. -/
def replaceSlotTuple (slots : SlotRecord × SlotRecord) (replacement : SlotRecord) :
    SlotRecord × SlotRecord :=
  (if slots.1.identity.name = replacement.identity.name then replacement else slots.1,
    if slots.2.identity.name = replacement.identity.name then replacement else slots.2)

/-- Whether an observation binds the current attempt: the condition on a stored one and `matches`
in `_dispatch`. -/
def BootObservation.binds (o : BootObservation) (s : BootState) (target : SlotName)
    (candidate : ReleaseArtifact) : Bool :=
  some o.attemptNonce == s.currentAttemptNonce && o.actualSlot == target &&
    o.releaseManifestSha256 == candidate.identity.manifestSha256 &&
    o.releaseRootSha256 == candidate.identity.rootSha256 && o.trustedAndVerified &&
    o.fenceEpoch == s.fenceEpoch && o.fenceOwnerToken == s.fenceOwnerToken

/-- Whether a stored acknowledgement binds the current attempt. -/
def EssentialHealthAcknowledgement.binds (h : EssentialHealthAcknowledgement) (s : BootState)
    (target : SlotName) (candidate : ReleaseArtifact) : Bool :=
  s.bootObservation.any fun o =>
    some h.attemptNonce == s.currentAttemptNonce && h.slot == target &&
      h.releaseManifestSha256 == candidate.identity.manifestSha256 &&
      h.observationReceiptSha256 == o.persistenceReceiptSha256 &&
      h.healthyServices == s.essentialServices && h.acknowledgedAtGeneration ≤ s.generation

/-- Any of the nonce, the observation and the acknowledgement is there. -/
def BootState.hasEvidence (s : BootState) : Bool :=
  s.currentAttemptNonce.isSome || s.bootObservation.isSome || s.healthAcknowledgement.isSome

/-- The target slot holds the candidate, staged. -/
def BootState.holdsStaged (s : BootState) (target : SlotName) (candidate : ReleaseArtifact) : Bool :=
  (s.slot target).status == .staged && (s.slot target).artifact == some candidate

namespace BootState

variable (s : BootState)

/-! ## The validator -/

def checkSlots : Except Raised Unit := do
  raiseIf (s.slots.1.identity.name == s.slots.2.identity.name)
    (invalid "state must contain exactly one logical A and B slot")
  raiseIf (s.slots.1.identity.stableId == s.slots.2.identity.stableId)
    (invalid "A and B cannot alias the same physical stable ID")
  let active := s.slot s.activeSlot
  raiseIf (active.status != .active || active.artifact.isNone)
    (invalid "active_slot must identify the sole active release")
  raiseIf ((s.slots.1.status == .active) == (s.slots.2.status == .active))
    (invalid "state must have exactly one active slot")
  checkPositive "minimum_release_sequence" s.minimumReleaseSequence
  raiseIf (active.artifact.any fun a => a.identity.releaseSequence < s.minimumReleaseSequence)
    (invalid "active release is below the anti-downgrade floor")

def checkServices : Except Raised Unit := do
  let services ← normalized "essential service" s.essentialServices
  raiseIf (services.isEmpty || services != s.essentialServices)
    (invalid "essential services must be non-empty, sorted, and unique")

def checkFence : Except Raised Unit := do
  checkPositive "fence_epoch" s.fenceEpoch
  checkText 256 "fence_owner_token" s.fenceOwnerToken
  checkTexts "retired fence owner" s.retiredFenceOwnerTokens
  raiseIf (!decide (s.retiredFenceOwnerTokens.Nodup) ||
      s.retiredFenceOwnerTokens.contains s.fenceOwnerToken)
    (invalid "fence owner history is ambiguous or reuses an active token")

def checkCounters : Except Raised Unit := do
  checkNonnegative "generation" s.generation
  checkNonnegative "trial_failures" s.trialFailures
  raiseIf (s.trialFailures > maxTrialFailures)
    (invalid "trial failures exceed the automatic-fallback bound")

def checkLedger : Except Raised Unit := do
  raiseIf (!decide (s.operations.map OperationRecord.operationId).Nodup)
    (invalid "operation identifiers must be unique")
  raiseIf (s.operations.map OperationRecord.appliedGeneration != generations s.generation)
    (invalid "operation ledger must cover every durable generation")
  raiseIf (!chained chainOrigin s.operations) (invalid "operation record chain is broken")

def checkNonces : Except Raised Unit := do
  checkTexts "used boot nonce" s.usedAttemptNonces
  raiseIf (!decide s.usedAttemptNonces.Nodup)
    (invalid "a boot-attempt nonce can never be reused")

/-- The evidence of a first boot. -/
def checkAttempt (candidate : ReleaseArtifact) (target : SlotName) : Except Raised Unit := do
  raiseIf (!s.currentAttemptNonce.any s.usedAttemptNonces.contains)
    (invalid "first boot requires a unique recorded attempt nonce")
  raiseIf (s.bootObservation.any fun o => !o.binds s target candidate)
    (invalid "stored boot observation does not bind this attempt")
  raiseIf (s.healthAcknowledgement.any fun h => !h.binds s target candidate)
    (invalid "health acknowledgement does not bind this boot attempt")

/-- An update in flight. -/
def checkUpdate (candidate : ReleaseArtifact) (target : SlotName) : Except Raised Unit := do
  raiseIf (target == s.activeSlot) (invalid "the active slot can never be an update target")
  raiseIf ([UpdatePhase.download, .verify, .write].contains s.phase &&
      s.selectedSlot != s.activeSlot)
    (invalid "pre-selection phases must retain the active selection")
  raiseIf (s.phase == .select && !([s.activeSlot, target].contains s.selectedSlot))
    (invalid "selection phase chose an unrelated slot")
  raiseIf (s.phase == .select && !s.holdsStaged target candidate)
    (invalid "selection requires the verified candidate in the target")
  raiseIf (s.phase == .firstBoot && s.selectedSlot != target)
    (invalid "first boot must select the trial target")
  raiseIf (s.phase == .firstBoot && !s.holdsStaged target candidate)
    (invalid "first boot requires the staged candidate")
  if s.phase = .firstBoot then s.checkAttempt candidate target
  else raiseIf s.hasEvidence (invalid "boot evidence is valid only during first boot")

def checkPhase : Except Raised Unit :=
  if s.phase = .idle then do
    raiseIf (s.candidate.isSome || s.targetSlot.isSome)
      (invalid "idle state cannot retain an in-flight candidate")
    raiseIf (s.selectedSlot != s.activeSlot) (invalid "idle state must select its active slot")
    raiseIf s.hasEvidence (invalid "idle state cannot retain trial evidence")
  else match s.candidate, s.targetSlot with
    | some candidate, some target => s.checkUpdate candidate target
    | _, _ => .error (invalid "an update phase requires a candidate and target slot")

/-- `BootState.__post_init__`. -/
def check : Except Raised Unit := do
  checkText 256 "controller_id" s.controllerId
  checkText 1024 "authentication_tag" s.authenticationTag
  s.checkSlots
  s.checkServices
  s.checkFence
  s.checkCounters
  s.checkLedger
  s.checkNonces
  s.checkPhase

/-- `BootState(...)` and `replace(state, ...)`: the fields in place, checked. -/
def build : Except Raised BootState := do
  s.check
  pure s

/-- `_canonical_state`. -/
def document : Value :=
  .object [
    ("active_slot", .string s.activeSlot.value),
    ("boot_observation", optional observationDocument s.bootObservation),
    ("candidate", optional artifactDocument s.candidate),
    ("controller_id", .string s.controllerId),
    ("current_attempt_nonce", optional .string s.currentAttemptNonce),
    ("data_checkpoint", checkpointDocument s.dataCheckpoint),
    ("essential_services", .array (s.essentialServices.map .string)),
    ("fence_epoch", .number s.fenceEpoch),
    ("fence_owner_token", .string s.fenceOwnerToken),
    ("generation", .number s.generation),
    ("health_acknowledgement", optional healthDocument s.healthAcknowledgement),
    ("minimum_release_sequence", .number s.minimumReleaseSequence),
    ("operations", .array (s.operations.map fun r => .object [
      ("applied_generation", .number r.appliedGeneration),
      ("kind", .string r.kind.value),
      ("operation_id", .string r.operationId),
      ("outcome", .string r.outcome),
      ("previous_record_sha256", .string r.previousRecordSha256),
      ("record_sha256", .string r.recordSha256),
      ("request_sha256", .string r.requestSha256)])),
    ("phase", .string s.phase.value),
    ("retired_fence_owner_tokens", .array (s.retiredFenceOwnerTokens.map .string)),
    ("selected_slot", .string s.selectedSlot.value),
    ("slots", .array [slotDocument s.slots.1, slotDocument s.slots.2]),
    ("tamper_observations", .array (s.tamperObservations.map tamperDocument)),
    ("target_slot", optional (fun n => .string (SlotName.value n)) s.targetSlot),
    ("trial_failures", .number s.trialFailures),
    ("used_attempt_nonces", .array (s.usedAttemptNonces.map .string))]

def authenticatedBytes : Bytes := toVec s.document

def commitmentSha256 : String := hexdigest sha256 s.authenticatedBytes

end BootState

/-! ## What the validator accepts -/

def SlotName.other : SlotName → SlotName
  | .a => .b
  | .b => .a

theorem SlotName.eq_other_iff {n m : SlotName} : n = m.other ↔ n ≠ m := by
  cases n <;> cases m <;> decide

/-- One record for each name, the active one active and at or above the floor. -/
structure SlotsFine (slots : SlotRecord × SlotRecord) (active : SlotName) (floor : Int) : Prop where
  names : slots.1.identity.name ≠ slots.2.identity.name
  stableIds : slots.1.identity.stableId ≠ slots.2.identity.stableId
  status : (slotOf slots active).status = .active
  artifact : ∃ a, (slotOf slots active).artifact = some a ∧ floor ≤ a.identity.releaseSequence
  sole : ∀ n ≠ active, (slotOf slots n).status ≠ .active
  floor : isPositive floor

structure FenceFine (epoch : Int) (owner : String) (retired : List String) : Prop where
  positive : isPositive epoch
  text : isText 256 owner
  texts : ∀ token ∈ retired, isText 256 token = true
  nodup : retired.Nodup
  fresh : owner ∉ retired

structure LedgerFine (operations : List OperationRecord) (generation : Int) : Prop where
  nodup : (operations.map OperationRecord.operationId).Nodup
  covers : operations.map OperationRecord.appliedGeneration = generations generation
  chained : chained chainOrigin operations = true

/-- What a phase asks of the update it is in. -/
def PhaseFine (s : BootState) : Prop :=
  match s.phase with
  | .idle => s.candidate = none ∧ s.targetSlot = none ∧ s.selectedSlot = s.activeSlot ∧
      s.hasEvidence = false
  | .download | .verify | .write => ∃ candidate target, s.candidate = some candidate ∧
      s.targetSlot = some target ∧ target ≠ s.activeSlot ∧ s.selectedSlot = s.activeSlot ∧
      s.hasEvidence = false
  | .select => ∃ candidate target, s.candidate = some candidate ∧ s.targetSlot = some target ∧
      target ≠ s.activeSlot ∧ (s.selectedSlot = s.activeSlot ∨ s.selectedSlot = target) ∧
      s.holdsStaged target candidate ∧ s.hasEvidence = false
  | .firstBoot => ∃ candidate target nonce, s.candidate = some candidate ∧
      s.targetSlot = some target ∧ target ≠ s.activeSlot ∧ s.selectedSlot = target ∧
      s.holdsStaged target candidate ∧ s.currentAttemptNonce = some nonce ∧
      nonce ∈ s.usedAttemptNonces ∧
      (∀ o, s.bootObservation = some o → o.binds s target candidate) ∧
      ∀ h, s.healthAcknowledgement = some h → h.binds s target candidate

structure BootState.WellFormed (s : BootState) : Prop where
  controller : isText 256 s.controllerId
  tag : isText 1024 s.authenticationTag
  slots : SlotsFine s.slots s.activeSlot s.minimumReleaseSequence
  services : (∀ service ∈ s.essentialServices, isText 256 service = true) ∧
    s.essentialServices.dedup.insertionSort (· ≤ ·) = s.essentialServices ∧
    s.essentialServices ≠ []
  fence : FenceFine s.fenceEpoch s.fenceOwnerToken s.retiredFenceOwnerTokens
  generation : isNonnegative s.generation
  failures : 0 ≤ s.trialFailures ∧ s.trialFailures ≤ 3
  ledger : LedgerFine s.operations s.generation
  nonces : (∀ nonce ∈ s.usedAttemptNonces, isText 256 nonce = true) ∧ s.usedAttemptNonces.Nodup
  phase : PhaseFine s

section Accepts

variable {s : BootState} {u : Unit}

theorem checkSlots_eq_ok : s.checkSlots = .ok u ↔
    SlotsFine s.slots s.activeSlot s.minimumReleaseSequence := by
  simp only [BootState.checkSlots, bind_eq_ok, raiseIf_eq_ok, checkPositive_eq_ok,
    beq_eq_false_iff_ne, Bool.or_eq_false_iff, bne_eq_false_iff_eq, Option.isNone_eq_false_iff,
    exists_const, BootState.slot]
  constructor
  · rintro ⟨hnames, hids, ⟨hstatus, hsome⟩, hsole, hfloor, habove⟩
    obtain ⟨a, ha⟩ := Option.isSome_iff_exists.mp hsome
    refine ⟨hnames, hids, hstatus, ⟨a, ha, ?_⟩, fun n hn hactive => hsole ?_, hfloor⟩
    · simpa [ha] using habove
    · unfold slotOf at hstatus hactive
      by_cases h1 : s.slots.1.identity.name = s.activeSlot
      · rw [if_pos h1] at hstatus
        rw [if_neg fun h => hn (h.symm.trans h1)] at hactive
        rw [hstatus, hactive]
      · rw [if_neg h1] at hstatus
        have hname : s.slots.1.identity.name = n := by
          rw [SlotName.eq_other_iff.mpr hn, SlotName.eq_other_iff.mpr h1]
        rw [if_pos hname] at hactive
        rw [hstatus, hactive]
  · rintro ⟨hnames, hids, hstatus, ⟨a, ha, habove⟩, hsole, hfloor⟩
    refine ⟨hnames, hids, ⟨hstatus, by simp [ha]⟩, ?_, hfloor, by simpa [ha] using habove⟩
    have hsole := hsole s.activeSlot.other (SlotName.eq_other_iff.mp rfl)
    unfold slotOf at hstatus hsole
    by_cases h1 : s.slots.1.identity.name = s.activeSlot
    · rw [if_pos h1] at hstatus
      rw [if_neg fun h => SlotName.eq_other_iff.mp h h1] at hsole
      simp [hstatus, hsole]
    · rw [if_neg h1] at hstatus
      rw [if_pos (SlotName.eq_other_iff.mpr h1)] at hsole
      simp [hstatus, hsole]

theorem checkServices_eq_ok : s.checkServices = .ok u ↔
    (∀ service ∈ s.essentialServices, isText 256 service = true) ∧
      s.essentialServices.dedup.insertionSort (· ≤ ·) = s.essentialServices ∧
      s.essentialServices ≠ [] := by
  simp only [BootState.checkServices, bind_eq_ok, normalized_eq_ok, raiseIf_eq_ok,
    Bool.or_eq_false_iff, bne_eq_false_iff_eq, List.isEmpty_eq_false_iff]
  constructor
  · rintro ⟨_, ⟨htexts, rfl⟩, hne, hsame⟩
    exact ⟨htexts, hsame, hsame ▸ hne⟩
  · rintro ⟨htexts, hsame, hne⟩
    exact ⟨_, ⟨htexts, rfl⟩, by rwa [hsame], hsame⟩

theorem checkFence_eq_ok : s.checkFence = .ok u ↔
    FenceFine s.fenceEpoch s.fenceOwnerToken s.retiredFenceOwnerTokens := by
  simp only [BootState.checkFence, bind_eq_ok, checkPositive_eq_ok, checkText_eq_ok,
    checkTexts_eq_ok, raiseIf_eq_ok, Bool.or_eq_false_iff, Bool.not_eq_false', decide_eq_true_eq,
    List.contains_eq_mem, decide_eq_false_iff_not, exists_const]
  constructor
  · rintro ⟨he, ho, hr, hd, hf⟩
    exact ⟨he, ho, hr, hd, hf⟩
  · rintro ⟨he, ho, hr, hd, hf⟩
    exact ⟨he, ho, hr, hd, hf⟩

theorem checkCounters_eq_ok : s.checkCounters = .ok u ↔ isNonnegative s.generation ∧
    0 ≤ s.trialFailures ∧ s.trialFailures ≤ 3 := by
  simp only [BootState.checkCounters, bind_eq_ok, checkNonnegative_eq_ok, raiseIf_eq_ok,
    isNonnegative_iff, gt_iff_lt, decide_eq_false_iff_not, exists_const, maxTrialFailures]
  omega

theorem checkLedger_eq_ok : s.checkLedger = .ok u ↔ LedgerFine s.operations s.generation := by
  simp only [BootState.checkLedger, bind_eq_ok, raiseIf_eq_ok, Bool.not_eq_false',
    decide_eq_true_eq, bne_eq_false_iff_eq, exists_const]
  constructor
  · rintro ⟨hn, hc, hl⟩
    exact ⟨hn, hc, hl⟩
  · rintro ⟨hn, hc, hl⟩
    exact ⟨hn, hc, hl⟩

theorem checkNonces_eq_ok : s.checkNonces = .ok u ↔
    (∀ nonce ∈ s.usedAttemptNonces, isText 256 nonce = true) ∧ s.usedAttemptNonces.Nodup := by
  simp only [BootState.checkNonces, bind_eq_ok, checkTexts_eq_ok, raiseIf_eq_ok,
    Bool.not_eq_false', decide_eq_true_eq, exists_const]

theorem checkAttempt_eq_ok {candidate : ReleaseArtifact} {target : SlotName} :
    s.checkAttempt candidate target = .ok u ↔
      (∃ nonce, s.currentAttemptNonce = some nonce ∧ nonce ∈ s.usedAttemptNonces) ∧
      (∀ o, s.bootObservation = some o → o.binds s target candidate) ∧
      ∀ h, s.healthAcknowledgement = some h → h.binds s target candidate := by
  simp only [BootState.checkAttempt, bind_eq_ok, raiseIf_eq_ok, Bool.not_eq_false', exists_const,
    Option.any_eq_true, List.contains_eq_mem, decide_eq_true_eq, Option.any_eq_false]

theorem checkPhase_eq_ok : s.checkPhase = .ok u ↔ PhaseFine s := by
  unfold BootState.checkPhase PhaseFine
  cases hc : s.candidate with
  | none => cases hp : s.phase <;> simp [bind_eq_ok, raiseIf_eq_ok]
  | some candidate =>
    cases ht : s.targetSlot with
    | none => cases hp : s.phase <;> simp [bind_eq_ok, raiseIf_eq_ok]
    | some target =>
      cases hp : s.phase with
      | idle | download | verify | write =>
        simp [BootState.checkUpdate, bind_eq_ok, raiseIf_eq_ok, hp]
      | select =>
        simp [BootState.checkUpdate, bind_eq_ok, raiseIf_eq_ok, hp, or_iff_not_imp_left]
      | firstBoot =>
        simp [BootState.checkUpdate, bind_eq_ok, raiseIf_eq_ok, checkAttempt_eq_ok, hp]
        constructor
        · rintro ⟨hne, rfl, hstaged, ⟨nonce, hnonce, hused⟩, hrest⟩
          exact ⟨rfl, hne, hstaged, nonce, hnonce, hused, hrest⟩
        · rintro ⟨rfl, hne, hstaged, nonce, hnonce, hused, hrest⟩
          exact ⟨hne, rfl, hstaged, ⟨nonce, hnonce, hused⟩, hrest⟩

theorem check_eq_ok : s.check = .ok u ↔ s.WellFormed := by
  simp only [BootState.check, bind_eq_ok, checkText_eq_ok, checkSlots_eq_ok, checkServices_eq_ok,
    checkFence_eq_ok, checkCounters_eq_ok, checkLedger_eq_ok, checkNonces_eq_ok, checkPhase_eq_ok,
    exists_const]
  constructor
  · rintro ⟨hc, ht, hs, hv, hf, ⟨hg, hb⟩, hl, hn, hp⟩
    exact ⟨hc, ht, hs, hv, hf, hg, hb, hl, hn, hp⟩
  · rintro ⟨hc, ht, hs, hv, hf, hg, hb, hl, hn, hp⟩
    exact ⟨hc, ht, hs, hv, hf, ⟨hg, hb⟩, hl, hn, hp⟩

theorem build_eq_ok {s' : BootState} : s.build = .ok s' ↔ s.WellFormed ∧ s' = s := by
  simp only [BootState.build, bind_eq_ok, check_eq_ok, pure_eq_ok, exists_const]
  exact and_congr_right fun _ => eq_comm

end Accepts

end LumaOS.Boot
