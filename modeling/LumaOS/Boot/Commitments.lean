import LumaOS.Boot.Replay
import LumaOS.Json.Dumps

/-!
# Boot commitments bind everything

`_canonical_state` and `_canonical_command` write the documents of `Values.lean` and `State.lean`
with `_canonical_json`, which is `dumps`. The texts of a valid value are printable ASCII, so these
are the bytes that `authenticatedBytes` and `canonical` write (`canonicalState_eq`,
`canonicalCommand_eq`), and the documents list every field (`document_injective`).

`boot_commitments_bind`: equal bytes are of equal commands, and of states that agree on every field
but the authentication tag.
-/

namespace LumaOS.Boot

open LumaOS.Base LumaOS.Text LumaOS.Json

variable {sha256 : Bytes → Vector UInt8 32} {s t : BootState} {c d : BootCommand}

/-- `_canonical_state`. -/
def BootState.canonicalState (s : BootState) : Bytes := dumps s.document

/-- `_canonical_command`. -/
def BootCommand.canonicalCommand (c : BootCommand) : Bytes := dumps c.document

/-- A command that `__post_init__` lets through. -/
def BootCommand.Valid (c : BootCommand) : Prop := ∃ raw : BootCommand, raw.postInit = .ok c

/-- **A state that `__post_init__` lets through**, with the records it is made of. -/
structure BootState.Valid (sha256 : Bytes → Vector UInt8 32) (s : BootState) : Prop where
  wellFormed : s.check = .ok ()
  slots : s.slots.1.check = .ok () ∧ s.slots.2.check = .ok ()
  records : ∀ r ∈ s.operations, r.check sha256 = .ok ()
  health : ∀ h, s.healthAcknowledgement = some h → h.check = .ok ()
  tamper : ∀ o ∈ s.tamperObservations, o.check = .ok ()

/-! ## Printable texts -/

theorem isAscii_of_isText {m : Nat} {v : String} (h : isText m v = true) : IsAscii v := by
  simp only [isText, Bool.and_eq_true, List.all_eq_true, printable, decide_eq_true_eq] at h
  exact h.2

theorem isAscii_of_isDigest {v : String} (h : isDigest v = true) : IsAscii v := by
  simp only [isDigest, Bool.and_eq_true] at h
  exact isAscii_of_isText h.1.1

theorem isAscii_slot (n : SlotName) : IsAscii n.value := by
  cases n <;> decide

theorem isAscii_signature (n : SignatureStatus) : IsAscii n.value := by
  cases n <;> decide

theorem isAscii_integrity (n : IntegrityStatus) : IsAscii n.value := by
  cases n <;> decide

theorem isAscii_status (n : SlotStatus) : IsAscii n.value := by
  cases n <;> decide

theorem isAscii_phase (n : UpdatePhase) : IsAscii n.value := by
  cases n <;> decide

theorem isAscii_kind (n : CommandKind) : IsAscii n.value := by
  cases n <;> decide

/-! ## Plain documents -/

theorem plain_identity (i : ReleaseIdentity) : Plain (identityDocument i) := by
  obtain ⟨hid, hversion, -, hmanifest, hroot, hsigner, hdata⟩ := i.valid
  refine plain_object (by simp only [List.map_cons, List.map_nil]; decide) ?_
  exact ⟨isAscii_of_isText hdata, isAscii_of_isDigest hmanifest, isAscii_of_isText hid, trivial,
    isAscii_of_isDigest hroot, isAscii_of_isText hsigner, isAscii_of_isText hversion, trivial⟩

theorem plain_artifact (a : ReleaseArtifact) : Plain (artifactDocument a) := by
  refine plain_object (by simp only [List.map_cons, List.map_nil]; decide) ?_
  exact ⟨plain_identity _, isAscii_integrity _, isAscii_signature _, trivial⟩

theorem plain_checkpoint (k : DataCheckpoint) : Plain (checkpointDocument k) := by
  obtain ⟨-, hsha, hschema, hwriter, -, howner, hreceipt⟩ := k.valid
  refine plain_object (by simp only [List.map_cons, List.map_nil]; decide) ?_
  exact ⟨isAscii_of_isDigest hreceipt, trivial, isAscii_of_isText hschema, isAscii_of_isDigest hsha,
    trivial, isAscii_of_isText howner, isAscii_of_isDigest hwriter, trivial⟩

theorem plain_observation (o : BootObservation) : Plain (observationDocument o) := by
  obtain ⟨hnonce, hmanifest, hroot, -, howner, hreceipt⟩ := o.valid
  refine plain_object (by simp only [List.map_cons, List.map_nil]; decide) ?_
  exact ⟨isAscii_slot _, isAscii_of_isText hnonce, trivial, isAscii_of_isText howner,
    isAscii_integrity _, isAscii_of_isDigest hreceipt, isAscii_of_isDigest hmanifest,
    isAscii_of_isDigest hroot, isAscii_signature _, trivial⟩

theorem plain_slot (r : SlotRecord) : Plain (slotDocument r) := by
  refine plain_object (by simp only [List.map_cons, List.map_nil]; decide) ?_
  exact ⟨plain_optional fun a _ => plain_artifact a, isAscii_slot _,
    isAscii_of_isText r.identity.valid, isAscii_status _, trivial⟩

theorem plain_health {h : EssentialHealthAcknowledgement} (hcheck : h.check = .ok ()) :
    Plain (healthDocument h) := by
  simp only [EssentialHealthAcknowledgement.check, bind_eq_ok, checkText_eq_ok, checkDigest_eq_ok,
    raiseIf_eq_ok, normalized_eq_ok, exists_const] at hcheck
  obtain ⟨hnonce, hmanifest, hreceipt, -, _, ⟨hservices, -⟩, -⟩ := hcheck
  refine plain_object (by simp only [List.map_cons, List.map_nil]; decide) ?_
  exact ⟨trivial, isAscii_of_isText hnonce,
    plain_array fun service hmem => isAscii_of_isText (hservices service hmem),
    isAscii_of_isDigest hreceipt, isAscii_of_isDigest hmanifest, isAscii_slot _, trivial⟩

theorem plain_tamper {o : TamperObservation} (hcheck : o.check = .ok ()) :
    Plain (tamperDocument o) := by
  simp only [TamperObservation.check, bind_eq_ok, checkText_eq_ok, checkDigest_eq_ok,
    checkTexts_eq_ok, checkPositive_eq_ok, raiseIf_eq_ok, exists_const] at hcheck
  obtain ⟨hid, -, hnonce, hmanifest, hroot, hmanifest', hroot', -, hreason⟩ := hcheck
  refine plain_object (by simp only [List.map_cons, List.map_nil]; decide) ?_
  exact ⟨plain_optional fun nonce hsome => isAscii_of_isText (hnonce nonce (by simp [hsome])),
    isAscii_of_isDigest hmanifest, isAscii_of_isDigest hroot, trivial, isAscii_integrity _,
    isAscii_of_isDigest hmanifest', isAscii_of_isDigest hroot', isAscii_signature _,
    isAscii_of_isText hid, isAscii_phase _, isAscii_of_isText hreason, isAscii_slot _, trivial⟩

/-- An entry of `operations`. -/
def operationDocument (r : OperationRecord) : Value :=
  .object [
    ("applied_generation", .number r.appliedGeneration),
    ("kind", .string r.kind.value),
    ("operation_id", .string r.operationId),
    ("outcome", .string r.outcome),
    ("previous_record_sha256", .string r.previousRecordSha256),
    ("record_sha256", .string r.recordSha256),
    ("request_sha256", .string r.requestSha256)]

theorem plain_operation {r : OperationRecord} (hcheck : r.check sha256 = .ok ()) :
    Plain (operationDocument r) := by
  simp only [OperationRecord.check, bind_eq_ok, checkText_eq_ok, checkDigest_eq_ok,
    checkPositive_eq_ok, exists_const] at hcheck
  obtain ⟨hid, hrequest, -, houtcome, hprevious, hrecord, -⟩ := hcheck
  refine plain_object (by simp only [List.map_cons, List.map_nil]; decide) ?_
  exact ⟨trivial, isAscii_kind _, isAscii_of_isText hid, isAscii_of_isText houtcome,
    isAscii_of_isDigest hprevious, isAscii_of_isDigest hrecord, isAscii_of_isDigest hrequest, trivial⟩

/-- The nonce of an attempt is one that was used. -/
theorem BootState.WellFormed.nonce_text {nonce : String} (h : s.WellFormed)
    (hnonce : s.currentAttemptNonce = some nonce) : isText 256 nonce = true := by
  have hevidence : s.hasEvidence = true := by
    rw [BootState.hasEvidence, hnonce]
    rfl
  cases hp : s.phase with
  | idle =>
    obtain ⟨-, -, -, hnone⟩ := h.phase.idle hp
    exact absurd (hevidence.symm.trans hnone) (by decide)
  | download | verify | write =>
    obtain ⟨_, _, -, -, -, -, hnone⟩ := h.phase.early (by simp [hp])
    exact absurd (hevidence.symm.trans hnone) (by decide)
  | select =>
    obtain ⟨_, _, -, -, -, -, -, hnone⟩ := h.phase.select hp
    exact absurd (hevidence.symm.trans hnone) (by decide)
  | firstBoot =>
    obtain ⟨_, _, nonce', -, -, -, -, -, hsome, hused, -⟩ := h.phase.firstBoot hp
    obtain rfl := Option.some.inj (hnonce.symm.trans hsome)
    exact h.nonces.1 nonce hused

theorem plain_state (h : s.Valid sha256) : Plain s.document := by
  have hfine := check_eq_ok.mp h.wellFormed
  refine plain_object (by simp only [List.map_cons, List.map_nil]; decide) ?_
  have htexts : ∀ {values : List String}, (∀ v ∈ values, isText 256 v = true) →
      Plain (.array (values.map .string)) := fun htext =>
    plain_array fun v hv => isAscii_of_isText (htext v hv)
  have hslots : Plain (.array [slotDocument s.slots.1, slotDocument s.slots.2]) :=
    ⟨plain_slot _, plain_slot _, trivial⟩
  exact ⟨isAscii_slot _, plain_optional fun o _ => plain_observation o,
    plain_optional fun a _ => plain_artifact a, isAscii_of_isText hfine.controller,
    plain_optional fun nonce hnonce => isAscii_of_isText (hfine.nonce_text hnonce),
    plain_checkpoint _, htexts hfine.services.1, trivial, isAscii_of_isText hfine.fence.text, trivial,
    plain_optional fun a ha => plain_health (h.health a ha), trivial,
    plain_array (f := operationDocument) fun r hr => plain_operation (h.records r hr),
    isAscii_phase _, htexts hfine.fence.texts, isAscii_slot _, hslots,
    plain_array fun o ho => plain_tamper (h.tamper o ho),
    plain_optional fun n _ => isAscii_slot n, trivial, htexts hfine.nonces.1, trivial⟩

/-- **The bytes of a state** are those that the controller model authenticates. -/
theorem canonicalState_eq (h : s.Valid sha256) : s.canonicalState = s.authenticatedBytes :=
  dumps_eq_toVec (plain_state h)

theorem plain_command (h : c.Valid) : Plain c.document := by
  obtain ⟨raw, hraw⟩ := h
  simp only [BootCommand.postInit, bind_eq_ok, checkText_eq_ok, checkNonnegative_eq_ok,
    checkPositive_eq_ok, checkTexts_eq_ok, normalized_eq_ok, pure_eq_ok, exists_const] at hraw
  obtain ⟨hid, -, -, howner, services, ⟨hservices, hsorted⟩, hnonce, _, -, htoken, _, -, rfl⟩ := hraw
  refine plain_object (by simp only [List.map_cons, List.map_nil]; decide) ?_
  have htext : ∀ service ∈ services, isText 256 service = true := by
    intro service hmem
    rw [← hsorted, List.mem_insertionSort, List.mem_dedup] at hmem
    exact hservices service hmem
  exact ⟨plain_optional fun a _ => plain_artifact a,
    plain_optional fun nonce hsome => isAscii_of_isText (hnonce nonce (by simpa using hsome)),
    plain_optional fun o _ => plain_observation o, plain_optional fun k _ => plain_checkpoint k,
    trivial, trivial, isAscii_of_isText howner,
    plain_array fun service hmem => isAscii_of_isText (htext service hmem), isAscii_kind _,
    plain_optional fun _ _ => trivial,
    plain_optional fun token hsome => isAscii_of_isText (htoken token (by simpa using hsome)),
    isAscii_of_isText hid, plain_optional fun n _ => isAscii_slot n, trivial⟩

/-- **The bytes of a command** are those that the controller model digests. -/
theorem canonicalCommand_eq (h : c.Valid) : c.canonicalCommand = c.canonical :=
  dumps_eq_toVec (plain_command h)

/-! ## Documents list every field -/

theorem SlotStatus.value_injective : Function.Injective SlotStatus.value := by
  intro x y h
  cases x <;> cases y <;> first | rfl | exact absurd h (by decide)

theorem UpdatePhase.value_injective : Function.Injective UpdatePhase.value := by
  intro x y h
  cases x <;> cases y <;> first | rfl | exact absurd h (by decide)

theorem texts_injective : Function.Injective (List.map Value.string) :=
  List.map_injective_iff.mpr fun _ _ h => Value.string.inj h

theorem healthDocument_injective : Function.Injective healthDocument := by
  intro x y h
  cases x
  cases y
  simp only [healthDocument, Value.object.injEq, List.cons.injEq, Prod.mk.injEq,
    Value.string.injEq, Value.number.injEq, Value.array.injEq, true_and, and_true] at h
  obtain ⟨hgeneration, hnonce, hservices, hreceipt, hmanifest, hslot⟩ := h
  simp only [EssentialHealthAcknowledgement.mk.injEq]
  exact ⟨hnonce, SlotName.value_injective hslot, hmanifest, hreceipt, texts_injective hservices,
    hgeneration⟩

theorem tamperDocument_injective : Function.Injective tamperDocument := by
  intro x y h
  cases x
  cases y
  simp only [tamperDocument, Value.object.injEq, List.cons.injEq, Prod.mk.injEq,
    Value.string.injEq, Value.number.injEq, true_and, and_true] at h
  obtain ⟨hnonce, hmanifest, hroot, hepoch, hintegrity, hmanifest', hroot', hsignature, hid, hphase,
    hreason, hslot⟩ := h
  have hstring : Function.Injective (optional Value.string) :=
    optional_injective (fun _ _ h => Value.string.inj h) fun _ h => by cases h
  simp only [TamperObservation.mk.injEq]
  exact ⟨hid, UpdatePhase.value_injective hphase, SlotName.value_injective hslot, hstring hnonce,
    hmanifest, hroot, hmanifest', hroot', SignatureStatus.value_injective hsignature,
    IntegrityStatus.value_injective hintegrity, hepoch, hreason⟩

theorem slotDocument_injective : Function.Injective slotDocument := by
  intro x y h
  obtain ⟨⟨name, id, hvalid⟩, artifact, status⟩ := x
  obtain ⟨⟨name', id', hvalid'⟩, artifact', status'⟩ := y
  simp only [slotDocument, Value.object.injEq, List.cons.injEq, Prod.mk.injEq,
    Value.string.injEq, true_and, and_true] at h
  obtain ⟨hartifact, hname, rfl, hstatus⟩ := h
  obtain rfl := SlotName.value_injective hname
  obtain rfl := SlotStatus.value_injective hstatus
  obtain rfl := optional_injective artifactDocument_injective (fun _ h => by cases h) hartifact
  rfl

theorem operationDocument_injective : Function.Injective operationDocument := by
  intro x y h
  cases x
  cases y
  simp only [operationDocument, Value.object.injEq, List.cons.injEq, Prod.mk.injEq,
    Value.string.injEq, Value.number.injEq, true_and, and_true] at h
  obtain ⟨hgeneration, hkind, hid, houtcome, hprevious, hrecord, hrequest⟩ := h
  simp only [OperationRecord.mk.injEq]
  exact ⟨hid, CommandKind.value_injective hkind, hrequest, hgeneration, houtcome, hprevious, hrecord⟩

/-- **The document of a state** determines all of it but the authentication tag. -/
theorem document_injective (h : s.document = t.document) :
    { s with authenticationTag := t.authenticationTag } = t := by
  cases s
  cases t
  simp only [BootState.document, Value.object.injEq, List.cons.injEq, Prod.mk.injEq,
    Value.string.injEq, Value.number.injEq, Value.array.injEq, true_and, and_true] at h
  obtain ⟨hactive, hobservation, hcandidate, hcontroller, hnonce, hcheckpoint, hservices, hepoch,
    howner, hgeneration, hhealth, hfloor, hoperations, hphase, hretired, hselected, ⟨hfirst, hsecond⟩,
    htamper, htarget, hfailures, hused⟩ := h
  have hstring : Function.Injective (optional Value.string) :=
    optional_injective (fun _ _ h => Value.string.inj h) fun _ h => by cases h
  have hslot : Function.Injective (optional fun n => Value.string (SlotName.value n)) :=
    optional_injective (fun _ _ h => SlotName.value_injective (Value.string.inj h))
      fun _ h => by cases h
  simp only [BootState.mk.injEq]
  exact ⟨hcontroller, Prod.ext (slotDocument_injective hfirst) (slotDocument_injective hsecond),
    SlotName.value_injective hactive, SlotName.value_injective hselected,
    UpdatePhase.value_injective hphase,
    optional_injective artifactDocument_injective (fun _ h => by cases h) hcandidate, hslot htarget,
    hfloor, hfailures, texts_injective hservices, hstring hnonce, texts_injective hused,
    optional_injective observationDocument_injective (fun _ h => by cases h) hobservation,
    optional_injective healthDocument_injective (fun _ h => by cases h) hhealth,
    checkpointDocument_injective hcheckpoint, hepoch, howner, texts_injective hretired,
    List.map_injective_iff.mpr tamperDocument_injective htamper, hgeneration,
    List.map_injective_iff.mpr operationDocument_injective hoperations, trivial⟩

/-- **Boot commitments bind everything**: valid states with the same authenticated bytes differ at
most in their tags, and valid commands with the same bytes are one. -/
theorem boot_commitments_bind (sha256 : Bytes → Vector UInt8 32) :
    (∀ s t : BootState, s.Valid sha256 → t.Valid sha256 →
      s.canonicalState = t.canonicalState →
        { s with authenticationTag := t.authenticationTag } = t) ∧
    ∀ c d : BootCommand, c.Valid → d.Valid → c.canonicalCommand = d.canonicalCommand → c = d := by
  refine ⟨fun s t hs ht h => ?_, fun c d hc hd h => ?_⟩
  · rw [canonicalState_eq hs, canonicalState_eq ht] at h
    exact document_injective (toVec_injective h)
  · rw [canonicalCommand_eq hc, canonicalCommand_eq hd] at h
    exact canonical_injective h

end LumaOS.Boot
