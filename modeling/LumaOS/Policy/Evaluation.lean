import LumaOS.Governance.Registered
import LumaOS.Utc.Delivery

/-!
# Evaluating the finite policy

Model of `Decision::evaluate` and `GrantEvidence::capture` (`policy_decisions.rs:133-165`,
`233-314`): the explanation of what `Grant::authorize` does, as an ordered chain of reasons with the
enforcing check as its last link. The policy's source files, the serialisation of the catalog and
SHA-256 are arguments; what `/dev/urandom` returned is one of `evaluate`.

**`evaluate_agrees`**: on a reachable catalog the outcome is `allow` exactly when the grant on file
authorizes the same identity, interval and usage. Whatever the outcome, the record is built from
records that passed their commands (`Registered`), so it passes `Decision::validate`, and only a
grant identifier that could never be on file is refused.
-/

namespace LumaOS.Policy

open LumaOS.Base LumaOS.Text LumaOS.Json LumaOS.Governance
open LumaOS.Utc (ApprovedPolicy Observation)

/-- What an evaluation takes from elsewhere. -/
structure Evaluator where
  sha256 : Bytes → Vector UInt8 32
  /-- The bytes `policy_digest` hashes, compiled in. -/
  policy : Bytes
  /-- `serde_json::to_vec(catalog)`. -/
  catalogJson : Catalog → Bytes
  /-- `ApprovedPolicy::fixed()`. -/
  fixed : Result ApprovedPolicy

/-- `Timestamp::observed`. -/
def Timestamp.observed (fixed : Result ApprovedPolicy) (live : Observation) :
    Result Timestamp := do
  let result : Timestamp :=
    { context := live.context, lowerMs := live.utc.lowerMs, upperMs := live.utc.upperMs }
  result.validate fixed
  pure result

/-- `GrantEvidence::capture`. -/
def GrantEvidence.capture (catalog : Catalog) (grant : Grant) : GrantEvidence :=
  let assignment := catalog.assignments[grant.assignment]?
  let role := assignment.bind fun a => catalog.roles[a.role]?
  { definition := grant
    assignment
    currentRole := role.map fun r =>
      { name := r.name, version := r.version, activities := r.activities }
    grantId := grant.id
    grantVersion := grant.version
    revoked := grant.revoked
    assignmentId := grant.assignment
    assignmentVersion := grant.assignmentVersion
    role := (assignment.map fun a => a.role).getD ""
    roleVersion := (assignment.map fun a => a.roleVersion).getD 0
    notBeforeMs := grant.notBeforeMs
    expiresMs := grant.expiresMs
    constraints := grant.constraints }

/-- The links of the chain that look at the assignment, and the enforcing check. -/
def assignmentReason (catalog : Catalog) (identity : Value) (interval : Interval) (usage : Use)
    (g : Grant) : Reason :=
  match catalog.assignments[g.assignment]? with
  | none => .assignmentUnavailable
  | some a =>
    if a.revoked then .assignmentRevoked
    else if (catalog.roles[a.role]?.map fun r => r.version) != some a.roleVersion then
      .roleSuperseded
    else match g.authorize catalog identity interval usage with
      | .error _ => .grantDenied
      | .ok _ => .allowed

/-- The chain of reasons for a grant. -/
def grantReason (catalog : Catalog) (identity : Value) (subject : Subject) (interval : Interval)
    (usage : Use) (g : Grant) : Reason :=
  if g.revoked then .grantRevoked
  else if g.subject != subject.principal || g.subjectGeneration != subject.generation then
    .subjectMismatch
  else if g.action != usage.action || g.selector != usage.selector then .targetMismatch
  else if usage.inputBytes > g.constraints.maxInputBytes ||
      usage.outputBytes > g.constraints.maxOutputBytes || usage.units > g.constraints.maxUnits then
    .constraintExceeded
  else if interval.within g.notBeforeMs g.expiresMs != .ok true then .outsideValidity
  else assignmentReason catalog identity interval usage g

/-- The reason of an evaluation: the forced one, or the chain's. -/
def reasonOf (catalog : Catalog) (identity : Value) (subject : Subject) (interval : Interval)
    (usage : Use) (grant : Option Grant) (forced : Option Reason) : Reason :=
  forced.getD (match grant with
    | none => .grantMissing
    | some g => grantReason catalog identity subject interval usage g)

/-- The subject of an evaluation. -/
def subjectOf (identity : Value) : Result Subject := do
  let principal ← okOr (identity.get "principal").asStr "missing actual policy subject"
  let generation ← okOr ((identity.get "generation").asU64.filter fun n => n > 0)
    "missing actual policy generation"
  pure { principal, generation }

/-- The record `evaluate` builds. -/
def Evaluator.record (E : Evaluator) (catalog : Catalog) (head : String) (subject : Subject)
    (timestamp : Timestamp) (grantId : String) (usage : Use) (reason : Reason)
    (id : Vector UInt8 16) : Decision where
  decisionId := hex id.toList
  policyVersion := 1
  policySha256 := hex (E.sha256 E.policy).toList
  subject := some subject
  checkpointHead := some head
  catalogSha256 := some (hex (E.sha256 (E.catalogJson catalog)).toList)
  grantId := grantId
  grant := catalog.grants[grantId]?.map (GrantEvidence.capture catalog)
  capability := usage.action
  normalizedResource := usage.selector
  evaluatedConstraints := usage
  outcome := if reason = .allowed then .allow else .deny
  reasonCode := reason
  timestamp := some timestamp

/-- `Decision::evaluate`; `random` is what `random_id` returned. -/
def Evaluator.evaluate (E : Evaluator) (catalog : Catalog) (identity : Value) (head : String)
    (live : Observation) (grantId : String) (usage : Use) (forced : Option Reason)
    (random : Result (Vector UInt8 16)) : Result Decision := do
  let timestamp ← Timestamp.observed E.fixed live
  let subject ← subjectOf identity
  let reason := reasonOf catalog identity subject live.utc usage catalog.grants[grantId]? forced
  let id ← random
  let result := E.record catalog head subject timestamp grantId usage reason id
  result.validate E.fixed
  pure result

/-! ## The chain and the enforcing check -/

variable {catalog : Catalog} {identity : Value} {subject : Subject} {interval : Interval}
  {usage : Use} {g : Grant}

theorem assignmentReason_allowed
    (h : assignmentReason catalog identity interval usage g = .allowed) :
    g.authorize catalog identity interval usage = .ok () := by
  unfold assignmentReason at h
  split at h
  · cases h
  · split at h
    · cases h
    · split at h
      · cases h
      · split at h
        · cases h
        · assumption

/-- Only the last link allows, and it is the enforcing check. -/
theorem authorize_of_allowed
    (h : grantReason catalog identity subject interval usage g = .allowed) :
    g.authorize catalog identity interval usage = .ok () := by
  unfold grantReason at h
  split at h
  · cases h
  · split at h
    · cases h
    · split at h
      · cases h
      · split at h
        · cases h
        · split at h
          · cases h
          · exact assignmentReason_allowed h

/-- The enforcing check implies every link before it. -/
theorem allowed_of_authorize (hs : subjectOf identity = .ok subject)
    (h : g.authorize catalog identity interval usage = .ok ()) :
    grantReason catalog identity subject interval usage g = .allowed := by
  obtain ⟨hpermits, -, a, ha, hcurrent, -⟩ := Catalog.authorize_eq_ok.mp h
  obtain ⟨-, -, hrevoked, ⟨role, hrole, hversion⟩, -⟩ := Catalog.current_eq_ok.mp hcurrent
  simp only [subjectOf, bind_eq_ok, okOr_eq_ok, pure_eq_ok, Option.filter_eq_some_iff,
    hpermits.principal, hpermits.generation, Option.some.injEq] at hs
  obtain ⟨_, rfl, _, ⟨rfl, -⟩, rfl⟩ := hs
  have hassignment : assignmentReason catalog identity interval usage g = .allowed := by
    unfold assignmentReason
    simp [ha, hrevoked, hrole, hversion, h]
  unfold grantReason
  simp [hpermits.live, hpermits.action, hpermits.selector, hpermits.input, hpermits.output,
    hpermits.units, hpermits.time, hassignment]

/-! ## The evidence -/

theorem isId_hex (id : Vector UInt8 16) : isId (hex id.toList) = true := by
  rw [isId, utf8ByteSize_hex, lowerHex_hex, Vector.length_toList]
  rfl

/-- Evidence captured from a reachable catalog is consistent with itself. -/
theorem capture_validate (hc : catalog.Registered) {grantId : String}
    (hg : catalog.grants[grantId]? = some g) :
    (GrantEvidence.capture catalog g).validate grantId = .ok () := by
  obtain ⟨hid, hok⟩ := hc.grants grantId g hg
  have hagrees : (GrantEvidence.capture catalog g).assignmentAgrees = true := by
    unfold GrantEvidence.assignmentAgrees GrantEvidence.capture
    cases ha : catalog.assignments[g.assignment]? with
    | none => simp
    | some a => simp [(hc.assignments _ a ha).1]
  have hrole : (!(GrantEvidence.capture catalog g).role.isEmpty &&
      !identifier (GrantEvidence.capture catalog g).role) = false := by
    unfold GrantEvidence.capture
    cases ha : catalog.assignments[g.assignment]? with
    | none => simp
    | some a => simp [(hc.assignments _ a ha).2]
  have hcurrent : ((GrantEvidence.capture catalog g).currentRole.any fun role =>
      role.name != (GrantEvidence.capture catalog g).role || role.version == 0 ||
      role.activities.isEmpty || role.activities.length > 256 ||
      role.activities.any fun v => !identifier v) = false := by
    unfold GrantEvidence.capture
    cases ha : catalog.assignments[g.assignment]? with
    | none => simp
    | some a =>
      cases hr : catalog.roles[a.role]? with
      | none => simp [hr]
      | some r =>
        obtain ⟨hname, hrole⟩ := hc.roles a.role r hr
        have hlen : r.activities.length ≤ 256 := le_trans hrole.activities.2 (by decide)
        have hids : ∀ v ∈ r.activities, identifier v = true := hrole.identifiers
        simpa [hr, hname, hrole.version, hrole.activities.1, hlen] using hids
  have hwindow := hok.window
  simp only [GrantEvidence.validate, bind_eq_ok, refuseIf_eq_ok, hagrees, hrole, hcurrent,
    Bool.not_true, exists_const, and_true]
  refine ⟨(), hok.selector, (), hok.constraints, ?_, ?_⟩
  · simp [GrantEvidence.capture, hid, hok.assignment, hok.version, hok.assignmentVersion,
      hwindow.1, hwindow.2]
  · simp [GrantEvidence.capture]

/-- An interval inside a window. -/
theorem inside_of_within {i : Interval} {notBefore expires : Int}
    (h : i.within notBefore expires = .ok true) :
    ¬ i.lowerMs < notBefore ∧ ¬ expires ≤ i.upperMs := by
  simp only [Interval.within, bind_eq_ok, pure_eq_ok, Bool.and_eq_true, decide_eq_true_eq] at h
  obtain ⟨_, -, hlower, hupper⟩ := h
  omega

/-- What supports an allowance is in the captured evidence. -/
theorem record_checkAllowed (E : Evaluator) {head grantId : String} {timestamp : Timestamp}
    {id : Vector UInt8 16} (hs : subjectOf identity = .ok subject)
    (htime : timestamp.lowerMs = interval.lowerMs ∧ timestamp.upperMs = interval.upperMs)
    (hg : catalog.grants[grantId]? = some g)
    (h : g.authorize catalog identity interval usage = .ok ()) :
    (E.record catalog head subject timestamp grantId usage .allowed id).checkAllowed = .ok () := by
  obtain ⟨hpermits, -, a, ha, hcurrent, hversion, hsubject, hgeneration, role, hrole, hacts⟩ :=
    Catalog.authorize_eq_ok.mp h
  obtain ⟨-, -, hrevoked, ⟨role', hrole', hroleVersion⟩, hinside⟩ :=
    Catalog.current_eq_ok.mp hcurrent
  rw [hrole] at hrole'
  cases hrole'
  simp only [subjectOf, bind_eq_ok, okOr_eq_ok, pure_eq_ok, Option.filter_eq_some_iff,
    hpermits.principal, hpermits.generation, Option.some.injEq] at hs
  obtain ⟨_, rfl, _, ⟨rfl, -⟩, rfl⟩ := hs
  obtain ⟨hlower, hupper⟩ := inside_of_within hpermits.time
  obtain ⟨hlower', hupper'⟩ := inside_of_within hinside
  have hactivity : (role.activities.any fun v => v == usage.action.activity) = true := by
    rw [hpermits.action, List.contains_iff_mem] at hacts
    exact List.any_eq_true.mpr ⟨_, hacts, beq_self_eq_true _⟩
  have hinput := hpermits.input
  have houtput := hpermits.output
  have hunits := hpermits.units
  simp only [Decision.checkAllowed, Evaluator.record, hg, GrantEvidence.capture, ha, hrole,
    Option.map_some, Option.bind_some, okOr, bind_eq_ok, refuseIf_eq_ok, Except.ok.injEq,
    exists_eq_left', Option.getD_some]
  simp [hpermits.live, hpermits.action, hpermits.selector, hrevoked, hversion, hroleVersion,
    hsubject, hgeneration, hactivity, htime, hlower, hupper, hlower', hupper', hinput, houtput,
    hunits]

/-! ## The evaluation -/

/-- The record passes its own check, when the evidence of an allowance supports it. -/
theorem record_validate (E : Evaluator) (hc : catalog.Registered) {head grantId : String}
    {timestamp : Timestamp} {reason : Reason} {id : Vector UInt8 16}
    (hsubject : emptyDigest 32 subject.principal = .ok false)
    (hgeneration : subject.generation ≠ 0)
    (hhead : isHash head = true) (htime : timestamp.validate E.fixed = .ok ())
    (husage : usage.validate = .ok ()) (hgrant : identifier grantId = true)
    (hallowed : reason = .allowed → (∃ g, catalog.grants[grantId]? = some g) ∧
      (E.record catalog head subject timestamp grantId usage reason id).checkAllowed = .ok ()) :
    (E.record catalog head subject timestamp grantId usage reason id).validate E.fixed =
      .ok () := by
  have hdigest : ∀ bytes, isHash (hex (E.sha256 bytes).toList) = true := fun bytes =>
    isHash_hex Vector.length_toList
  have hevidence : ∀ x ∈
      (E.record catalog head subject timestamp grantId usage reason id).grant.toList,
      x.validate grantId = .ok () := by
    intro x hx
    obtain ⟨g, hg, rfl⟩ := Option.map_eq_some_iff.mp (Option.mem_toList.mp hx)
    exact capture_validate hc hg
  simp only [Decision.validate, bind_eq_ok, refuseIf_eq_ok, forM_eq_ok]
  refine ⟨(), husage, (), ?_, (), ?_, (), ?_, (), ?_, (), hevidence, (), ?_, ?_⟩
  · by_cases hr : reason = .allowed <;>
      simp [Evaluator.record, isId_hex, hdigest, hgrant, hr]
  · intro x hx
    obtain rfl : x = subject := by simpa [Evaluator.record] using hx
    exact ⟨false, hsubject, by simpa using hgeneration⟩
  · intro value hvalue
    have hcases : value = head ∨ value = hex (E.sha256 (E.catalogJson catalog)).toList := by
      simpa [Evaluator.record] using hvalue
    rcases hcases with rfl | rfl
    · simpa using hhead
    · simp [hdigest]
  · intro x hx
    obtain rfl : x = timestamp := by simpa [Evaluator.record] using hx
    exact htime
  · by_cases hr : reason = .allowed
    · obtain ⟨⟨g, hg⟩, -⟩ := hallowed hr
      simp [Evaluator.record, hr, hg]
    · simp [Evaluator.record, hr]
  · by_cases hr : reason = .allowed
    · rw [if_pos (by simp [Evaluator.record, hr])]
      exact (hallowed hr).2
    · rw [if_neg (by simp [Evaluator.record, hr])]
      rfl

theorem observed_eq_ok {fixed : Result ApprovedPolicy} {live : Observation}
    {timestamp : Timestamp} (h : Timestamp.observed fixed live = .ok timestamp) :
    timestamp.validate fixed = .ok () ∧ timestamp.lowerMs = live.utc.lowerMs ∧
      timestamp.upperMs = live.utc.upperMs := by
  simp only [Timestamp.observed, bind_eq_ok, pure_eq_ok] at h
  obtain ⟨_, htime, rfl⟩ := h
  exact ⟨htime, rfl, rfl⟩

/-- An allowance that nothing forced comes from the enforcing check. -/
theorem authorize_of_reason {live : Observation} {grantId : String} {forced : Option Reason}
    (hforced : forced ≠ some .allowed)
    (h : reasonOf catalog identity subject live.utc usage catalog.grants[grantId]? forced =
      .allowed) :
    ∃ g, catalog.grants[grantId]? = some g ∧
      g.authorize catalog identity live.utc usage = .ok () := by
  cases forced with
  | some reason =>
    obtain rfl : reason = .allowed := h
    exact absurd rfl hforced
  | none =>
    cases hg : catalog.grants[grantId]? with
    | none =>
      rw [hg] at h
      cases h
    | some g =>
      rw [hg] at h
      exact ⟨g, rfl, authorize_of_allowed h⟩

/-- **An evaluation of an identifier returns its record.** -/
theorem evaluate_returns (E : Evaluator) (hc : catalog.Registered) {live : Observation}
    {timestamp : Timestamp} {head grantId : String} {forced : Option Reason}
    (hs : subjectOf identity = .ok subject)
    (hnonzero : emptyDigest 32 subject.principal = .ok false)
    (hpositive : subject.generation ≠ 0)
    (hlive : Timestamp.observed E.fixed live = .ok timestamp) (hhead : isHash head = true)
    (husage : usage.validate = .ok ()) (hid : identifier grantId = true)
    (hforced : forced ≠ some .allowed) (id : Vector UInt8 16) :
    E.evaluate catalog identity head live grantId usage forced (.ok id) =
      .ok (E.record catalog head subject timestamp grantId usage
        (reasonOf catalog identity subject live.utc usage catalog.grants[grantId]? forced) id) := by
  obtain ⟨htime, hbounds⟩ := observed_eq_ok hlive
  have hvalid : (E.record catalog head subject timestamp grantId usage
      (reasonOf catalog identity subject live.utc usage catalog.grants[grantId]? forced)
      id).validate E.fixed = .ok () := by
    refine record_validate E hc hnonzero hpositive hhead htime husage hid fun hr => ?_
    obtain ⟨g, hg, hauthorize⟩ := authorize_of_reason hforced hr
    rw [hr]
    exact ⟨⟨g, hg⟩, record_checkAllowed E hs hbounds hg hauthorize⟩
  simp only [Evaluator.evaluate, hlive, hs, bind, Except.bind, hvalid]
  rfl

/-- Whatever is returned was checked, and its outcome is that of its reason. -/
theorem evaluate_eq_ok {E : Evaluator} {live : Observation} {head grantId : String}
    {forced : Option Reason} {random : Result (Vector UInt8 16)} {d : Decision}
    (h : E.evaluate catalog identity head live grantId usage forced random = .ok d) :
    d.validate E.fixed = .ok () ∧ (d.outcome = .allow → ∃ subject,
      reasonOf catalog identity subject live.utc usage catalog.grants[grantId]? forced =
        .allowed) := by
  simp only [Evaluator.evaluate, bind_eq_ok, pure_eq_ok] at h
  obtain ⟨timestamp, -, subject, -, id, -, _, hvalid, rfl⟩ := h
  refine ⟨hvalid, fun hout => ⟨subject, ?_⟩⟩
  by_contra hne
  simp [Evaluator.record, hne] at hout

/-- **The explanation agrees with the enforcement.** `head` is the head of the journal, a digest in
hexadecimal. On every reachable catalog, with nothing forced, the outcome is `allow` exactly when
the grant on file authorizes; every record returned passes its own check; and for an identifier a
record is returned, whatever the reason. -/
theorem evaluate_agrees (f : ModelFormats) (events : List Catalog.Event) (E : Evaluator)
    {identity : Value} {principal : String} {generation : UInt64} {live : Observation}
    {timestamp : Timestamp} {head : String} {usage : Use}
    (hprincipal : (identity.get "principal").asStr = some principal)
    (hnonzero : emptyDigest 32 principal = .ok false)
    (hgeneration : (identity.get "generation").asU64 = some generation) (hpositive : 0 < generation)
    (hlive : Timestamp.observed E.fixed live = .ok timestamp) (hhead : isHash head = true)
    (husage : usage.validate = .ok ()) (grantId : String) (id : Vector UInt8 16) :
    let catalog := Catalog.run f .initial events
    let evaluate := fun forced =>
      E.evaluate catalog identity head live grantId usage forced (.ok id)
    ((∃ d, evaluate none = .ok d ∧ d.outcome = .allow) ↔
      ∃ g, catalog.grants[grantId]? = some g ∧
        g.authorize catalog identity live.utc usage = .ok ()) ∧
    (∀ forced d, evaluate forced = .ok d → d.validate E.fixed = .ok ()) ∧
    (identifier grantId = true → ∀ forced, forced ≠ some .allowed →
      ∃ d, evaluate forced = .ok d) := by
  intro catalog evaluate
  have hc : catalog.Registered :=
    Catalog.run_registered Catalog.initial_fenced Catalog.initial_registered events
  have hs : subjectOf identity = .ok ⟨principal, generation⟩ := by
    simp only [subjectOf, hprincipal, hgeneration, bind_eq_ok, okOr_eq_ok, pure_eq_ok]
    exact ⟨principal, rfl, generation, by simp [hpositive], rfl⟩
  have hne : generation ≠ 0 := by
    rintro rfl
    exact absurd hpositive (by decide)
  have hreturns := fun (hid : identifier grantId = true) (forced : Option Reason)
      (hforced : forced ≠ some .allowed) =>
    evaluate_returns E hc hs hnonzero hne hlive hhead husage hid hforced id
  refine ⟨⟨?_, ?_⟩, fun forced d hd => (evaluate_eq_ok hd).1,
    fun hid forced hforced => ⟨_, hreturns hid forced hforced⟩⟩
  · rintro ⟨d, hd, hout⟩
    obtain ⟨subject, hreason⟩ := (evaluate_eq_ok hd).2 hout
    exact authorize_of_reason (by simp) hreason
  · rintro ⟨g, hg, hauthorize⟩
    obtain ⟨hkey, hok⟩ := hc.grants grantId g hg
    have hallowed := allowed_of_authorize hs hauthorize
    refine ⟨_, hreturns (hkey ▸ hok.id) none (by simp), ?_⟩
    simp [Evaluator.record, reasonOf, hg, hallowed]

/-! ### A read that is allowed -/

/-- Nothing is hashed and no catalog is serialised below. -/
def sampleEvaluator : Evaluator where
  sha256 := fun _ => Vector.replicate 32 1
  policy := []
  catalogJson := fun _ => []
  fixed := .ok ⟨Vector.replicate 32 5⟩

def sampleObservation : Observation :=
  ⟨⟨2000, repeatText "05" 32, repeatText "06" 16, 1, 1, 1, repeatText "07" 32⟩, ⟨2000, 2001⟩⟩

/-- The grant of the sample run allows its read, and the evaluation says so. -/
theorem evaluate_agrees_sample :
    let catalog := Catalog.run Catalog.sampleFormats .initial (Catalog.sampleEvents.take 6)
    Catalog.sampleGrant.authorize catalog Catalog.sampleIdentity sampleObservation.utc
      Catalog.sampleUse = .ok () ∧
    ∃ d, sampleEvaluator.evaluate catalog Catalog.sampleIdentity (repeatText "08" 32)
      sampleObservation "grant-1" Catalog.sampleUse none (.ok (Vector.replicate 16 9)) = .ok d ∧
        d.outcome = .allow := by
  intro catalog
  refine ⟨Catalog.sample_granted.1.2, ?_⟩
  have hprincipal : (Catalog.sampleIdentity.get "principal").asStr =
      some Catalog.sampleSubject := rfl
  have hgeneration : (Catalog.sampleIdentity.get "generation").asU64 = some 1 := by decide
  have hlive : Timestamp.observed sampleEvaluator.fixed sampleObservation =
      .ok ⟨sampleObservation.context, 2000, 2001⟩ := by decide
  exact (evaluate_agrees Catalog.sampleFormats (Catalog.sampleEvents.take 6) sampleEvaluator
    hprincipal (by decide) hgeneration (by decide) hlive (by decide) (by decide) "grant-1"
    (Vector.replicate 16 9)).1.mpr ⟨_, Catalog.sample_granted.1⟩

end LumaOS.Policy
