import LumaOS.Boot.Dispatch

/-!
# Runs of the boot controller

A run sends commands to `transition` one after the other, each with guards of its own, from the
state of `initial_boot_state`. What `transition` returns is persisted and its anchor update
committed before the next command; a command that cannot be built or raises leaves the state.

`happens_of_is` says what one event of a run is: nothing changed, or one command was applied, by a
`Step` with its record and a seal. `initial_enrolled` says what a run starts from.
-/

namespace LumaOS.Boot

open LumaOS.Base LumaOS.Text LumaOS.Json

/-- A command as its caller writes it, and the guards it is served under. -/
structure Request where
  command : BootCommand
  guards : TransitionGuards

variable (sha256 : Bytes → Vector UInt8 32)

/-- The command built and applied. -/
def serve (s : BootState) (q : Request) : Except Raised TransitionResult := do
  let c ← q.command.postInit
  transition sha256 s c q.guards

/-- The reply, and the state the controller goes on from. -/
def react (s : BootState) (q : Request) : Except Raised TransitionResult × BootState :=
  settle TransitionResult.state s (serve sha256 s q)

/-- One command of a run, with its reply and the states around it. -/
abbrev Moment := Event BootState Request (Except Raised TransitionResult)

/-- The command that was applied, if one was: not refused, and not a replay. -/
def Moment.applied (e : Moment) : Option BootCommand :=
  match e.result, e.op.command.postInit with
  | .ok r, .ok c => if r.receipt.replayed then none else some c
  | _, _ => none

variable {sha256} {s : BootState} {e : Moment} {c : BootCommand}

/-- **What one event is.** -/
inductive Happens (sha256 : Bytes → Vector UInt8 32) (e : Moment) : Prop
  | nothing (none : Moment.applied e = none) (same : e.after = e.before)
  | applied {c : BootCommand} {changed : BootState} {outcome : String}
      (command : Moment.applied e = some c) (fine : c.Fine)
      (step : Step e.op.guards e.before c changed)
      (after : e.after = (unsealed sha256 e.before c changed outcome).withSeal e.op.guards)
      (fence : c.fenceEpoch = e.before.fenceEpoch ∧ c.fenceOwnerToken = e.before.fenceOwnerToken)
      (generation : c.expectedGeneration = e.before.generation)
      (unused : c.operationId ∉ e.before.operations.map OperationRecord.operationId)
      (reply : ∃ r, e.result = .ok r ∧
        r.receipt = ⟨c.operationId, c.kind, e.before.generation + 1, outcome, false⟩)

theorem happens_of_is (hs : e.before.Sound sha256) (h : e.Is (react sha256)) :
    Happens sha256 e ∧ e.after.Sound sha256 := by
  obtain ⟨before, ⟨raw, G⟩, result, after⟩ := e
  have hs : before.Sound sha256 := hs
  have h : react sha256 before ⟨raw, G⟩ = (result, after) := h
  rw [react, serve] at h
  cases hraw : raw.postInit with
  | error x =>
    rw [hraw] at h
    obtain ⟨rfl, rfl⟩ := Prod.mk.inj h
    exact ⟨.nothing rfl rfl, hs⟩
  | ok c =>
    have hc := postInit_fine hraw
    have hgives := transition_gives (G := G) hs hc
    rw [hraw] at h
    change settle TransitionResult.state before (transition sha256 before c G) = (result, after) at h
    cases ht : transition sha256 before c G with
    | error x =>
      rw [ht] at h
      obtain ⟨rfl, rfl⟩ := Prod.mk.inj h
      exact ⟨.nothing rfl rfl, hs⟩
    | ok r =>
      rw [ht] at h hgives
      obtain ⟨rfl, rfl⟩ := Prod.mk.inj h
      rcases hgives with ⟨record, -, -, -, -, rfl⟩ | ⟨happlied, hsound⟩
      · refine ⟨.nothing ?_ rfl, hs⟩
        simp [Moment.applied, hraw]
      · obtain ⟨hfence, hgeneration, hunused, ⟨changed, outcome, hstep, hstate, hreceipt⟩, -⟩ :=
          happlied
        refine ⟨.applied (c := c) ?_ hc hstep hstate hfence hgeneration hunused ⟨r, rfl, hreceipt⟩,
          hsound⟩
        simp [Moment.applied, hraw, hreceipt]

/-! ## The initial state -/

/-- What a run starts from. -/
structure Enrolled (sha256 : Bytes → Vector UInt8 32) (E : Enrollment) (G : TransitionGuards)
    (s : BootState) : Prop where
  sound : s.Sound sha256
  phase : s.phase = .idle
  active : (s.slot s.activeSlot).artifact = some E.activeRelease
  nonces : s.usedAttemptNonces = []
  fence : s.fenceEpoch = E.fenceEpoch ∧ s.fenceOwnerToken = E.fenceOwnerToken
  retired : s.retiredFenceOwnerTokens = []
  generation : s.generation = 0
  operations : s.operations = []
  checkpoint : s.dataCheckpoint = E.dataCheckpoint
  durable : G.dataCheckpointOracle.verifyDurable s.dataCheckpoint = true
  readable : G.dataCheckpointOracle.isReadable s.dataCheckpoint E.activeRelease.identity = true

theorem slotRecord_eq_ok {E : Enrollment} {name : SlotName} {stableId : String} {r : SlotRecord}
    (h : E.slotRecord name stableId = .ok r) : r.check = .ok () ∧ r.identity.name = name ∧
      (name = E.activeSlot → r.artifact = some E.activeRelease) := by
  simp only [Enrollment.slotRecord, SlotIdentity.build, bind_eq_ok] at h
  obtain ⟨i, hi, h⟩ := h
  split at hi
  · cases hi
    split at h
    · simp only [SlotRecord.build, bind_eq_ok, pure_eq_ok] at h
      obtain ⟨_, hcheck, rfl⟩ := h
      exact ⟨hcheck, rfl, fun _ => rfl⟩
    · rename_i hne
      simp only [SlotRecord.build, bind_eq_ok, pure_eq_ok] at h
      obtain ⟨_, hcheck, rfl⟩ := h
      exact ⟨hcheck, rfl, fun he => absurd he hne⟩
  · cases hi

/-- The fields of the initial state. -/
def Enrollment.initial (E : Enrollment) (slots : SlotRecord × SlotRecord)
    (services : List String) (tag : String) : BootState :=
  { controllerId := E.controllerId
    slots
    activeSlot := E.activeSlot
    selectedSlot := E.activeSlot
    phase := .idle
    candidate := none
    targetSlot := none
    minimumReleaseSequence := E.activeRelease.identity.releaseSequence
    trialFailures := 0
    essentialServices := services
    currentAttemptNonce := none
    usedAttemptNonces := []
    bootObservation := none
    healthAcknowledgement := none
    dataCheckpoint := E.dataCheckpoint
    fenceEpoch := E.fenceEpoch
    fenceOwnerToken := E.fenceOwnerToken
    retiredFenceOwnerTokens := []
    tamperObservations := []
    authenticationTag := tag }

/-- The enrolled state of two records of the initial state. -/
theorem enrolled_of_records {E : Enrollment} {G : TransitionGuards} {slotA slotB : SlotRecord}
    {services : List String} {tag : String}
    (hA : E.slotRecord .a E.slotAStableId = .ok slotA)
    (hB : E.slotRecord .b E.slotBStableId = .ok slotB)
    (hw : (E.initial (slotA, slotB) services tag).WellFormed)
    (hschema : E.dataCheckpoint.schemaId = E.activeRelease.identity.dataCompatibilityId)
    (hdurable : G.dataCheckpointOracle.verifyDurable E.dataCheckpoint = true)
    (hreadable : G.dataCheckpointOracle.isReadable E.dataCheckpoint
      E.activeRelease.identity = true) :
    Enrolled sha256 E G (E.initial (slotA, slotB) services tag) := by
  obtain ⟨hcheckA, hnameA, hactiveA⟩ := slotRecord_eq_ok hA
  obtain ⟨hcheckB, hnameB, hactiveB⟩ := slotRecord_eq_ok hB
  have hslotA : (E.initial (slotA, slotB) services tag).slot .a = slotA := if_pos hnameA
  have hslotB : (E.initial (slotA, slotB) services tag).slot .b = slotB :=
    if_neg (by simp [Enrollment.initial, hnameA])
  have hactive : ((E.initial (slotA, slotB) services tag).slot E.activeSlot).artifact =
      some E.activeRelease := by
    cases ha : E.activeSlot with
    | a =>
      rw [hslotA]
      exact hactiveA ha.symm
    | b =>
      rw [hslotB]
      exact hactiveB ha.symm
  refine ⟨⟨hw, fun n => ?_, fun r hr => absurd hr List.not_mem_nil, fun h => absurd rfl h,
    fun a ha => ?_, fun a ha => ?_, fun h => by cases h⟩, rfl, hactive, rfl, ⟨rfl, rfl⟩,
    rfl, rfl, rfl, rfl, hdurable, hreadable⟩
  · cases n with
    | a =>
      rw [hslotA]
      exact hcheckA
    | b =>
      rw [hslotB]
      exact hcheckB
  · cases hactive.symm.trans ha
    rfl
  · cases hactive.symm.trans ha
    exact hschema

theorem build_gives : Gives (fun _ => True) (fun s' => s.WellFormed ∧ s' = s) s.build := by
  cases h : s.build with
  | error e => exact trivial
  | ok s' => exact build_eq_ok.mp h

theorem initial_enrolled {E : Enrollment} {G : TransitionGuards}
    (h : initialBootState E G = .ok s) : Enrolled sha256 E G s := by
  have hgives : Gives (fun _ => True) (Enrolled sha256 E G) (initialBootState E G) := by
    refine gives_bind_raiseIf (fun _ => trivial) fun _ => ?_
    refine gives_bind_raiseIf (fun _ => trivial) fun _ => ?_
    refine gives_bind_raiseIf (fun _ => trivial) fun hbound => ?_
    refine gives_bind_raiseIf (fun _ => trivial) fun hdurable => ?_
    refine gives_bind_raiseIf (fun _ => trivial) fun hreadable => ?_
    refine gives_bind_any fun services _ => gives_bind_any fun slotA hA =>
      gives_bind_any fun slotB hB => ?_
    refine gives_bind build_gives ?_
    rintro _ ⟨-, rfl⟩
    refine gives_bind_raiseIf (fun _ => trivial) fun _ => gives_bind build_gives ?_
    rintro _ ⟨hw, rfl⟩
    refine gives_bind_raiseIf (fun _ => trivial) fun _ => ?_
    simp only [Bool.or_eq_false_iff, bne_eq_false_iff_eq] at hbound
    exact enrolled_of_records hA hB hw hbound.1.1.2 ((Bool.not_eq_false' _).mp hdurable)
      ((Bool.not_eq_false' _).mp hreadable)
  rw [h] at hgives
  exact hgives

/-- What `initial_boot_state` asks for. -/
structure Enrollment.Fine (E : Enrollment) (G : TransitionGuards) : Prop where
  trusted : E.activeRelease.trustedAndVerified = true
  controller : isText 256 E.controllerId = true
  stableIds : E.slotAStableId ≠ E.slotBStableId
  stableTexts : isText 256 E.slotAStableId = true ∧ isText 256 E.slotBStableId = true
  written : E.dataCheckpoint.writerReleaseManifestSha256 =
    E.activeRelease.identity.manifestSha256
  schema : E.dataCheckpoint.schemaId = E.activeRelease.identity.dataCompatibilityId
  fenced : E.dataCheckpoint.writerFenceEpoch = E.fenceEpoch ∧
    E.dataCheckpoint.writerOwnerToken = E.fenceOwnerToken
  durable : G.dataCheckpointOracle.verifyDurable E.dataCheckpoint = true
  readable : G.dataCheckpointOracle.isReadable E.dataCheckpoint E.activeRelease.identity = true
  services : (∀ service ∈ E.essentialServices, isText 256 service = true) ∧
    E.essentialServices ≠ []
  seals : ∀ payload, Seals G payload

theorem insertionSort_dedup_idem (l : List String) :
    (l.dedup.insertionSort (· ≤ ·)).dedup.insertionSort (· ≤ ·) = l.dedup.insertionSort (· ≤ ·) := by
  have hnodup : (l.dedup.insertionSort (· ≤ ·)).Nodup :=
    (List.perm_insertionSort _ _).nodup_iff.mpr (List.nodup_dedup l)
  rw [hnodup.dedup, List.Pairwise.insertionSort_eq (List.pairwise_insertionSort _ _)]

/-- A record of the initial state. -/
structure Enrollment.Record (E : Enrollment) (name : SlotName) (stableId : String)
    (r : SlotRecord) : Prop where
  built : E.slotRecord name stableId = .ok r
  named : r.identity.name = name
  identified : r.identity.stableId = stableId
  active : name = E.activeSlot → r.status = .active ∧ r.artifact = some E.activeRelease
  empty : name ≠ E.activeSlot → r.status = .empty

namespace Enrollment.Fine

variable {E : Enrollment} {G : TransitionGuards} {slotA slotB : SlotRecord}

theorem record (h : E.Fine G) (name : SlotName) {stableId : String}
    (ht : isText 256 stableId = true) : ∃ r, E.Record name stableId r := by
  by_cases hname : name = E.activeSlot
  · refine ⟨⟨⟨name, stableId, ht⟩, some E.activeRelease, .active⟩, ?_, rfl, rfl,
      fun _ => ⟨rfl, rfl⟩, fun hne => absurd hname hne⟩
    rw [Enrollment.slotRecord, SlotIdentity.build, dif_pos ht]
    exact (if_pos hname).trans
      (slotRecord_build (slotCheck_of_trusted (fun h => by cases h) h.trusted))
  · refine ⟨⟨⟨name, stableId, ht⟩, none, .empty⟩, ?_, rfl, rfl, fun he => absurd he hname,
      fun _ => rfl⟩
    rw [Enrollment.slotRecord, SlotIdentity.build, dif_pos ht]
    exact (if_neg hname).trans rfl

theorem slotsFine (h : E.Fine G) (hA : E.Record .a E.slotAStableId slotA)
    (hB : E.Record .b E.slotBStableId slotB) :
    SlotsFine (slotA, slotB) E.activeSlot E.activeRelease.identity.releaseSequence := by
  have hslot : ∀ n, (n = E.activeSlot → (slotOf (slotA, slotB) n).status = .active ∧
      (slotOf (slotA, slotB) n).artifact = some E.activeRelease) ∧
      (n ≠ E.activeSlot → (slotOf (slotA, slotB) n).status = .empty) := by
    intro n
    cases n with
    | a =>
      rw [slotOf, if_pos hA.named]
      exact ⟨hA.active, hA.empty⟩
    | b =>
      rw [slotOf, if_neg (by simp [hA.named])]
      exact ⟨hB.active, hB.empty⟩
  obtain ⟨hstatus, hartifact⟩ := (hslot E.activeSlot).1 rfl
  refine ⟨by rw [hA.named, hB.named]; decide, by rw [hA.identified, hB.identified]; exact h.stableIds,
    hstatus, ⟨E.activeRelease, hartifact, le_refl _⟩, fun n hn hactive => ?_,
    E.activeRelease.identity.valid.2.2.1⟩
  rw [(hslot n).2 hn] at hactive
  cases hactive

theorem wellFormed (h : E.Fine G) (hA : E.Record .a E.slotAStableId slotA)
    (hB : E.Record .b E.slotBStableId slotB) (tag : String) (htag : isText 1024 tag = true) :
    (E.initial (slotA, slotB) (E.essentialServices.dedup.insertionSort (· ≤ ·)) tag).WellFormed := by
  have hservices : E.essentialServices.dedup.insertionSort (· ≤ ·) ≠ [] := fun hnil => by
    have := (List.perm_insertionSort (· ≤ ·) E.essentialServices.dedup).length_eq
    rw [hnil, List.length_nil, eq_comm, List.length_eq_zero_iff, List.dedup_eq_nil] at this
    exact h.services.2 this
  exact
    { controller := h.controller
      tag := htag
      slots := h.slotsFine hA hB
      services := ⟨fun service hservice => h.services.1 service
          (List.mem_dedup.mp ((List.mem_insertionSort _).mp hservice)),
        insertionSort_dedup_idem _, hservices⟩
      fence :=
        { positive := by
            have := E.dataCheckpoint.valid.2.2.2.2.1
            rwa [h.fenced.1] at this
          text := by
            have := E.dataCheckpoint.valid.2.2.2.2.2.1
            rwa [h.fenced.2] at this
          texts := fun token ht => absurd ht List.not_mem_nil
          nodup := List.nodup_nil
          fresh := List.not_mem_nil }
      generation := rfl
      failures := ⟨le_refl (0 : Int), by simp [Enrollment.initial]⟩
      ledger := ⟨List.nodup_nil, rfl, rfl⟩
      nonces := ⟨fun nonce hn => absurd hn List.not_mem_nil, List.nodup_nil⟩
      phase := ⟨rfl, rfl, rfl, rfl⟩ }

/-- An enrollment in order succeeds. -/
theorem succeeds (h : E.Fine G) : ∃ s, initialBootState E G = .ok s := by
  obtain ⟨slotA, hA⟩ := h.record .a h.stableTexts.1
  obtain ⟨slotB, hB⟩ := h.record .b h.stableTexts.2
  have hgives : Gives (fun _ => False) (fun _ => True) (initialBootState E G) := by
    refine gives_bind_raiseIf (fun hu => ?_) fun _ => ?_
    · rw [h.trusted] at hu
      cases hu
    refine gives_bind_raiseIf (fun hu => h.stableIds (by simpa using hu)) fun _ => ?_
    refine gives_bind_raiseIf (fun hu => ?_) fun _ => ?_
    · simp [h.written, h.schema, h.fenced] at hu
    refine gives_bind_raiseIf (fun hu => ?_) fun _ => ?_
    · rw [h.durable] at hu
      cases hu
    refine gives_bind_raiseIf (fun hu => ?_) fun _ => ?_
    · rw [h.readable] at hu
      cases hu
    refine gives_bind_ok (normalized_eq_ok.mpr ⟨h.services.1, rfl⟩) ?_
    refine gives_bind_ok hA.built (gives_bind_ok hB.built ?_)
    refine gives_bind_ok (build_eq_ok.mpr
      ⟨h.wellFormed hA hB "pending" (isText_of_chars rfl (by decide)), rfl⟩) ?_
    refine gives_bind_raiseIf (fun hu => ?_) fun _ => ?_
    · rw [(h.seals _).1] at hu
      cases hu
    refine gives_bind_ok (build_eq_ok.mpr ⟨h.wellFormed hA hB _ (h.seals _).1, rfl⟩) ?_
    refine gives_bind_raiseIf (fun hu => ?_) fun _ => trivial
    have hseal := (h.seals (E.initial (slotA, slotB)
      (E.essentialServices.dedup.insertionSort (· ≤ ·)) "pending").authenticatedBytes).2
    exact absurd (hseal.symm.trans ((Bool.not_eq_true' _).mp hu)) (by decide)
  obtain ⟨s, hs, -⟩ := hgives.exists_ok
  exact ⟨s, hs⟩

end Enrollment.Fine

/-- **Every state of a run is sound**, and every event is one of `Happens`. -/
theorem run_happens {E : Enrollment} {G : TransitionGuards} (h : initialBootState E G = .ok s)
    (requests : List Request) : ∀ e ∈ events (react sha256) s requests,
      e.before.Sound sha256 ∧ Happens sha256 e ∧ e.after.Sound sha256 := by
  intro e he
  obtain ⟨hbefore, -, his, hafter⟩ := events_invariant (anyRequest requests)
    (I := BootState.Sound sha256) (fun e _ hs his => (happens_of_is hs his).2)
    (initial_enrolled h).sound e he
  exact ⟨hbefore, (happens_of_is hbefore his).1, hafter⟩

/-! ## An enrollment -/

/-- A digest of one repeated digit. -/
def digestOf (c : Char) : String := String.ofList (List.replicate 64 c)

theorem isDigest_digestOf {c : Char} (h : lowerHex c = true) : isDigest (digestOf c) = true :=
  isDigest_ofList (List.length_replicate ..) fun d hd => by
    rw [List.eq_of_mem_replicate hd]
    exact h

def Enrollment.sample : Enrollment where
  activeRelease :=
    { identity :=
        { releaseId := "luma-1"
          version := "1.0.0"
          releaseSequence := 1
          manifestSha256 := digestOf 'a'
          rootSha256 := digestOf 'b'
          signerKeyId := "release-key"
          dataCompatibilityId := "schema-1"
          valid := ⟨isText_of_chars rfl (by decide), isText_of_chars rfl (by decide), by decide,
            isDigest_digestOf (by decide), isDigest_digestOf (by decide),
            isText_of_chars rfl (by decide), isText_of_chars rfl (by decide)⟩ }
      signatureStatus := .trusted
      integrityStatus := .verified }
  controllerId := "boot-1"
  dataCheckpoint :=
    { generation := 0
      sha256 := digestOf 'c'
      schemaId := "schema-1"
      writerReleaseManifestSha256 := digestOf 'a'
      writerFenceEpoch := 1
      writerOwnerToken := "owner-1"
      durabilityReceiptSha256 := digestOf 'd'
      valid := ⟨by decide, isDigest_digestOf (by decide), isText_of_chars rfl (by decide),
        isDigest_digestOf (by decide), by decide, isText_of_chars rfl (by decide),
        isDigest_digestOf (by decide)⟩ }
  fenceEpoch := 1
  fenceOwnerToken := "owner-1"

/-- Guards that accept what they are asked about. -/
def TransitionGuards.sample : TransitionGuards where
  stateAuthenticator := ⟨fun _ tag => tag == "sealed", fun _ => "sealed"⟩
  monotonicAnchor := ⟨fun _ _ _ => true⟩
  bootObservationVerifier := ⟨fun _ => true⟩
  dataCheckpointOracle := ⟨fun _ => true, fun _ _ => true⟩

theorem Enrollment.sample_fine : Enrollment.sample.Fine TransitionGuards.sample where
  trusted := rfl
  controller := isText_of_chars rfl (by decide)
  stableIds := by decide
  stableTexts := ⟨isText_of_chars rfl (by decide), isText_of_chars rfl (by decide)⟩
  written := rfl
  schema := rfl
  fenced := ⟨rfl, rfl⟩
  durable := rfl
  readable := rfl
  services := by
    refine ⟨fun service h => ?_, by decide⟩
    rcases List.mem_cons.mp h with rfl | h
    · exact isText_of_chars rfl (by decide)
    · rw [List.mem_singleton.mp h]
      exact isText_of_chars rfl (by decide)
  seals _ := ⟨isText_of_chars rfl (by decide), rfl⟩

end LumaOS.Boot
