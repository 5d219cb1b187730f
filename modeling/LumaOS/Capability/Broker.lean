import LumaOS.Base.Dict
import LumaOS.Base.Run
import LumaOS.Json.Dumps
import LumaOS.Text.Datetime

/-!
# The reference policy broker

Model of `PolicyBroker` (`policy.py`): grants are installed and revoked, and `decide` looks for the
grant that a request rests on. What the clock, the id factory and the authorizer of grant
mutations answer is an argument of the call (`Answers`).

`decide` selects the first grant, in the order of installation, that names the request's subject,
capability, resource and operation, and only then asks whether that grant is current. A grant that
was revoked or has run out, and was installed first, hides a current one behind it (`Hidden`).

* `granted_iff_allows`: the decision allows when a current grant matches, unless it is hidden, and only then.

**`decision_rests_on_grants`** says what is left of the independence from the order of installation.
-/

namespace LumaOS.Capability

open LumaOS.Base LumaOS.Text LumaOS.Json

/-! ## Values -/

/-- The exception classes of `policy.py`; `foreign` is what a callback raises. -/
inductive FaultKind where
  | validation
  | conflict
  | denied
  | foreign
deriving DecidableEq, Repr

structure Fault where
  kind : FaultKind
  message : String
deriving DecidableEq, Repr

def invalid (message : String) : Fault := ⟨.validation, message⟩

def conflict (message : String) : Fault := ⟨.conflict, message⟩

/-- `not value or value != value.strip() or len(value) > 256`, negated. -/
def isTrimmed (value : String) : Bool :=
  (value.toList.head?.any fun c => !isSpace c) &&
    (value.toList.getLast?.any fun c => !isSpace c) && value.length ≤ 256

/-- `"\x00" in value or "*" in value`, negated. -/
def isFree (value : String) : Bool := !value.toList.contains '\x00' && !value.toList.contains '*'

/-- What `_identifier` accepts. -/
def isIdentifier (value : String) : Bool := isTrimmed value && isFree value

/-- `_identifier`. -/
def identifier (value field : String) : Except Fault String := do
  raiseIf (!isTrimmed value)
    (invalid s!"{field} must be a non-empty trimmed string up to 256 characters")
  raiseIf (!isFree value) (invalid s!"{field} cannot contain NUL or wildcard characters")
  pure value

theorem isIdentifier_iff {value : String} :
    isIdentifier value = true ↔ isTrimmed value = true ∧ isFree value = true := Bool.and_eq_true_iff

/-- `CapabilityGrant`, as `__post_init__` leaves it. -/
structure CapabilityGrant where
  grantId : String
  subject : String
  capability : String
  resourceKind : String
  resourceId : String
  operations : List String
  issuedAt : Datetime
  expiresAt : Datetime
  version : Nat
  revokedAt : Option Datetime
  named : ∀ value ∈ [grantId, subject, capability, resourceKind, resourceId],
    isIdentifier value = true
  operates : operations ≠ [] ∧ operations.Pairwise (· < ·) ∧
    ∀ operation ∈ operations, isIdentifier operation = true
  lasts : issuedAt < expiresAt
  versioned : 1 ≤ version
deriving DecidableEq

/-- `PolicyRequest`, as `__post_init__` leaves it. -/
structure PolicyRequest where
  subject : String
  capability : String
  resourceKind : String
  resourceId : String
  operation : String
  expectedGrantId : Option String
  expectedGrantVersion : Option Nat
  named : ∀ value ∈ [subject, capability, resourceKind, resourceId, operation],
    isIdentifier value = true

inductive DecisionOutcome where
  | allow
  | deny
deriving DecidableEq, Repr

inductive ReasonCode where
  | allowed
  | noMatchingGrant
  | subjectMismatch
  | capabilityMismatch
  | resourceMismatch
  | operationDenied
  | notYetValid
  | expired
  | revoked
  | staleVersion
deriving DecidableEq, Repr

structure PolicyDecision where
  decisionId : String
  policyVersion : Nat
  policyDigest : String
  outcome : DecisionOutcome
  reasonCode : ReasonCode
  subject : String
  capability : String
  resourceKind : String
  resourceId : String
  operation : String
  evaluatedAt : Datetime
  grantId : Option String
  grantVersion : Option Nat
  evaluatedConstraints : List String
deriving DecidableEq, Repr

/-! ## The broker -/

/-- What the callbacks answer to one call: the clock, the id factory, and the authorizer of grant
mutations, `none` where the broker has none. -/
structure Answers where
  clock : Except Fault Datetime
  decisionId : Except Fault String
  authorizer : Option Bool

structure Broker where
  grants : Dict CapabilityGrant
  policyVersion : Nat
deriving DecidableEq

namespace Broker

/-- `PolicyBroker()`. -/
def empty : Broker := ⟨.empty, 0⟩

/-- `_administrative_denial`, raised: its own clock and id may raise instead. -/
def denial (answers : Answers) : Except Fault Unit := do
  let _ ← answers.clock
  let drawn ← answers.decisionId
  let _ ← identifier drawn "decision_id"
  .error ⟨.denied, "no_matching_grant"⟩

/-- `_authorize_grant_mutation`. -/
def authorizeGrantMutation (answers : Answers) (actor : Option String) : Except Fault Unit :=
  match answers.authorizer, actor with
  | none, _ => pure ()
  | some _, none => denial answers
  | some admits, some actor => do
    let _ ← identifier actor "actor"
    if admits then pure () else denial answers

/-- The installation of a grant. -/
def put (b : Broker) (grant : CapabilityGrant) : Broker :=
  { grants := b.grants.set grant.grantId grant, policyVersion := b.policyVersion + 1 }

/-- `install`. -/
def install (b : Broker) (grant : CapabilityGrant) (actor : Option String) (answers : Answers) :
    Except Fault (CapabilityGrant × Broker) := do
  authorizeGrantMutation answers actor
  match b.grants.get? grant.grantId with
  | some existing =>
    if grant.version ≤ existing.version then do
      raiseIf (grant != existing) (conflict "grant update must advance its version")
      pure (existing, b)
    else pure (grant, b.put grant)
  | none => pure (grant, b.put grant)

/-- `replace(current, version=current.version + 1, revoked_at=now)`. -/
def revoked (current : CapabilityGrant) (now : Datetime) : CapabilityGrant :=
  { current with
    version := current.version + 1
    revokedAt := some now
    versioned := Nat.le_add_left 1 current.version }

/-- `revoke`. -/
def revoke (b : Broker) (grantId : String) (expectedVersion : Int) (actor : Option String)
    (answers : Answers) : Except Fault (CapabilityGrant × Broker) := do
  let _ ← identifier grantId "grant_id"
  authorizeGrantMutation answers actor
  match b.grants.get? grantId with
  | none => .error (conflict "grant does not exist")
  | some current => do
    raiseIf (current.version != expectedVersion) (conflict "grant version changed")
    if current.revokedAt.isSome then pure (current, b)
    else do
      let now ← answers.clock
      let grant := revoked current now
      pure (grant, { grants := b.grants.set grantId grant, policyVersion := b.policyVersion + 1 })

/-! ## Decisions -/

/-- The scan of `decide` for a request without an expected grant id: the grant names all that the
request does. -/
def names (r : PolicyRequest) (item : CapabilityGrant) : Bool :=
  item.subject == r.subject && item.capability == r.capability &&
    item.resourceKind == r.resourceKind && item.resourceId == r.resourceId &&
    item.operations.contains r.operation

/-- The grant that `decide` selects. -/
def selected (b : Broker) (r : PolicyRequest) : Option CapabilityGrant :=
  match r.expectedGrantId with
  | some expected => b.grants.values.find? fun item => item.grantId == expected
  | none => b.grants.values.find? (names r)

/-- The reason of a decision on the selected grant. -/
def reason (r : PolicyRequest) (now : Datetime) (selected : CapabilityGrant) : ReasonCode :=
  if selected.subject ≠ r.subject then .subjectMismatch
  else if selected.capability ≠ r.capability then .capabilityMismatch
  else if selected.resourceKind ≠ r.resourceKind ∨ selected.resourceId ≠ r.resourceId then
    .resourceMismatch
  else if r.operation ∉ selected.operations then .operationDenied
  else if r.expectedGrantVersion.any (· != selected.version) then .staleVersion
  else if selected.revokedAt.isSome then .revoked
  else if now < selected.issuedAt then .notYetValid
  else if now ≥ selected.expiresAt then .expired
  else .allowed

/-- A grant in the document that is digested. -/
def grantJson (grant : CapabilityGrant) : Value :=
  .object [("grant_id", .string grant.grantId), ("subject", .string grant.subject),
    ("capability", .string grant.capability), ("resource_kind", .string grant.resourceKind),
    ("resource_id", .string grant.resourceId),
    ("operations", .array (grant.operations.map Value.string)),
    ("issued_at", .string grant.issuedAt.isoformat),
    ("expires_at", .string grant.expiresAt.isoformat), ("version", .number grant.version),
    ("revoked_at", optional (fun at' => .string at'.isoformat) grant.revokedAt)]

/-- `_digest_locked`. -/
def digest (sha256 : Bytes → Bytes) (b : Broker) : String :=
  let grants := b.grants.values.insertionSort fun x y => x.grantId ≤ y.grantId
  hex (sha256 (dumps (.object [("policy_version", .number b.policyVersion),
    ("grants", .array (grants.map grantJson))])))

/-- `decide`, at a given time. -/
def decideAt (sha256 : Bytes → Bytes) (b : Broker) (r : PolicyRequest) (now : Datetime)
    (answers : Answers) : Except Fault PolicyDecision := do
  let selected := b.selected r
  let reasonCode := (selected.map (reason r now)).getD .noMatchingGrant
  let drawn ← answers.decisionId
  let decisionId ← identifier drawn "decision_id"
  pure
    { decisionId
      policyVersion := b.policyVersion
      policyDigest := b.digest sha256
      outcome := if reasonCode = .allowed then .allow else .deny
      reasonCode
      subject := r.subject
      capability := r.capability
      resourceKind := r.resourceKind
      resourceId := r.resourceId
      operation := r.operation
      evaluatedAt := now
      grantId := selected.map CapabilityGrant.grantId
      grantVersion := selected.map CapabilityGrant.version
      evaluatedConstraints := ["subject", "capability", "resource", "operation", "grant-version",
        "validity-window", "revocation"] }

/-! ## Runs -/

/-- A call that writes. -/
inductive Op where
  | install (grant : CapabilityGrant) (actor : Option String) (answers : Answers)
  | revoke (grantId : String) (expectedVersion : Int) (actor : Option String) (answers : Answers)

/-- A call that raises leaves the broker. -/
def step (b : Broker) : Op → Except Fault CapabilityGrant × Broker
  | .install grant actor answers =>
    match b.install grant actor answers with
    | .ok (grant, b') => (.ok grant, b')
    | .error e => (.error e, b)
  | .revoke grantId expectedVersion actor answers =>
    match b.revoke grantId expectedVersion actor answers with
    | .ok (grant, b') => (.ok grant, b')
    | .error e => (.error e, b)

/-- The broker after a sequence of calls. -/
def after (b : Broker) (ops : List Op) : Broker := ops.foldl (fun b op => (step b op).2) b

/-! ## What a decision rests on -/

/-- The grant is current for the request: of the expected version, not revoked, and valid now. -/
def current (r : PolicyRequest) (now : Datetime) (item : CapabilityGrant) : Bool :=
  r.expectedGrantVersion.all (· == item.version) && item.revokedAt.isNone &&
    decide (item.issuedAt ≤ now) && decide (now < item.expiresAt)

/-- Some installed grant matches the request and is current. -/
def Granted (b : Broker) (r : PolicyRequest) (now : Datetime) : Prop :=
  ∃ item ∈ b.grants.values, names r item = true ∧ current r now item = true

/-- The grant installed first among those that match is not current, and one behind it is. -/
def Hidden (b : Broker) (r : PolicyRequest) (now : Datetime) : Prop :=
  ∃ front item rest, b.grants.values = front ++ item :: rest ∧
    (∀ x ∈ front, names r x = false) ∧ names r item = true ∧ current r now item = false ∧
    ∃ x ∈ rest, names r x = true ∧ current r now x = true

/-- The decision allows. -/
def Allows (sha256 : Bytes → Bytes) (b : Broker) (r : PolicyRequest) (now : Datetime)
    (answers : Answers) : Prop :=
  ∃ decision, b.decideAt sha256 r now answers = .ok decision ∧ decision.outcome = .allow

variable {b b' : Broker} {r : PolicyRequest} {now : Datetime} {answers : Answers}

/-- A test that answers another code has failed where the answer is `code`. -/
theorem ite_eq_code {p : Prop} [Decidable p] {other x code : ReasonCode} (h : other ≠ code) :
    (if p then other else x) = code ↔ ¬p ∧ x = code := by
  by_cases hp : p <;> simp [hp, h]

theorem names_eq_true {item : CapabilityGrant} :
    names r item = true ↔ item.subject = r.subject ∧ item.capability = r.capability ∧
      (item.resourceKind = r.resourceKind ∧ item.resourceId = r.resourceId) ∧
        r.operation ∈ item.operations := by
  unfold names
  simp only [Bool.and_eq_true, beq_iff_eq, List.contains_iff_mem]
  tauto

theorem current_eq_true {item : CapabilityGrant} :
    current r now item = true ↔ r.expectedGrantVersion.any (· != item.version) = false ∧
      item.revokedAt.isSome = false ∧ item.issuedAt ≤ now ∧ now < item.expiresAt := by
  have hversion : (r.expectedGrantVersion.all (· == item.version)) =
      !(r.expectedGrantVersion.any (· != item.version)) := by
    cases r.expectedGrantVersion <;> simp [bne]
  have hrevoked : item.revokedAt.isNone = !item.revokedAt.isSome := by
    cases item.revokedAt <;> rfl
  unfold current
  simp only [hversion, hrevoked, Bool.and_eq_true, Bool.not_eq_true', decide_eq_true_eq,
    and_assoc]

theorem reason_eq_allowed {item : CapabilityGrant} :
    reason r now item = .allowed ↔ names r item = true ∧ current r now item = true := by
  have hbefore : ¬now < item.issuedAt ↔ item.issuedAt ≤ now := Datetime.not_lt
  have hafter : ¬now ≥ item.expiresAt ↔ now < item.expiresAt := Datetime.not_le
  rw [names_eq_true, current_eq_true]
  unfold reason
  rw [ite_eq_code (by decide), ite_eq_code (by decide), ite_eq_code (by decide),
    ite_eq_code (by decide), ite_eq_code (by decide), ite_eq_code (by decide),
    ite_eq_code (by decide), ite_eq_code (by decide), hbefore, hafter]
  simp only [not_or, not_not, Bool.not_eq_true, and_true, and_assoc]

/-- Without an expected id, the selected grant is the first that matches. -/
theorem selected_eq (hid : r.expectedGrantId = none) :
    b.selected r = b.grants.values.find? (names r) := by
  unfold selected
  rw [hid]

/-- What a decision comes to, whatever its id. -/
theorem allows_iff_selected {sha256 : Bytes → Bytes} {decisionId : String}
    (hdrawn : answers.decisionId = .ok decisionId) (hnamed : isIdentifier decisionId = true) :
    Allows sha256 b r now answers ↔
      ∃ item, b.selected r = some item ∧ reason r now item = .allowed := by
  have hidentifier : identifier decisionId "decision_id" = .ok decisionId := by
    obtain ⟨htrimmed, hfree⟩ := isIdentifier_iff.mp hnamed
    simp [identifier, raiseIf, htrimmed, hfree, bind, Except.bind, pure, Except.pure]
  have houtcome : ∀ code : ReasonCode,
      (if code = .allowed then DecisionOutcome.allow else .deny) = .allow ↔ code = .allowed := by
    intro code
    cases code <;> simp
  simp only [Allows, decideAt, hdrawn, bind_eq_ok, pure_eq_ok]
  constructor
  · rintro ⟨decision, ⟨_, -, _, -, rfl⟩, hallow⟩
    rw [houtcome] at hallow
    cases hselected : b.selected r with
    | none =>
      rw [hselected] at hallow
      cases hallow
    | some item =>
      rw [hselected] at hallow
      exact ⟨item, rfl, hallow⟩
  · rintro ⟨item, hselected, hreason⟩
    refine ⟨_, ⟨decisionId, rfl, decisionId, hidentifier, rfl⟩, ?_⟩
    rw [houtcome, hselected]
    exact hreason

/-- **A decision allows where some grant is current and matches, unless that grant is hidden.** -/
theorem granted_iff_allows {sha256 : Bytes → Bytes} {decisionId : String}
    (hid : r.expectedGrantId = none) (hdrawn : answers.decisionId = .ok decisionId)
    (hnamed : isIdentifier decisionId = true) :
    (Allows sha256 b r now answers ↔ b.Granted r now) ↔ ¬b.Hidden r now := by
  rw [allows_iff_selected hdrawn hnamed, selected_eq hid]
  constructor
  · rintro h ⟨front, item, rest, hvalues, hfront, hitem, hstale, x, hx, hmatch, hcurrent⟩
    have hgranted : b.Granted r now := by
      refine ⟨x, ?_, hmatch, hcurrent⟩
      rw [hvalues]
      exact List.mem_append_right front (List.mem_cons_of_mem item hx)
    obtain ⟨y, hfind, hreason⟩ := h.mpr hgranted
    have hfirst : b.grants.values.find? (names r) = some item := by
      rw [List.find?_eq_some_iff_append]
      exact ⟨hitem, front, rest, hvalues, fun a ha => by rw [hfront a ha]; rfl⟩
    rw [hfirst] at hfind
    cases hfind
    rw [(reason_eq_allowed.mp hreason).2] at hstale
    cases hstale
  · intro hhidden
    constructor
    · rintro ⟨item, hfind, hreason⟩
      obtain ⟨hmatch, hcurrent⟩ := reason_eq_allowed.mp hreason
      exact ⟨item, List.mem_of_find?_eq_some hfind, hmatch, hcurrent⟩
    · rintro ⟨x, hx, hmatch, hcurrent⟩
      cases hfind : b.grants.values.find? (names r) with
      | none =>
        have hnone := List.find?_eq_none.mp hfind x hx
        exact absurd hmatch hnone
      | some item =>
        refine ⟨item, rfl, reason_eq_allowed.mpr ?_⟩
        obtain ⟨hitem, front, rest, hvalues, hfront⟩ := List.find?_eq_some_iff_append.mp hfind
        refine ⟨hitem, ?_⟩
        by_contra hstale
        have hstale : current r now item = false := by simpa using hstale
        -- the current grant is neither the first that matches nor in front of it
        refine hhidden ⟨front, item, rest, hvalues, fun a ha => by simpa using hfront a ha, hitem,
          hstale, x, ?_, hmatch, hcurrent⟩
        rw [hvalues, List.mem_append, List.mem_cons] at hx
        rcases hx with hx | rfl | hx
        · have := hfront x hx
          rw [hmatch] at this
          cases this
        · rw [hcurrent] at hstale
          cases hstale
        · exact hx

/-- The same grants are installed, in whatever order. -/
def SameGrants (b b' : Broker) : Prop := ∀ item, item ∈ b.grants.values ↔ item ∈ b'.grants.values

theorem SameGrants.granted (h : SameGrants b b') : b.Granted r now ↔ b'.Granted r now := by
  unfold Granted
  simp only [h _]

/-- A grant with a new id never takes an allowance away: the first match stays the first. -/
theorem allows_put {sha256 : Bytes → Bytes} {decisionId : String} {grant : CapabilityGrant}
    (hid : r.expectedGrantId = none) (hdrawn : answers.decisionId = .ok decisionId)
    (hnamed : isIdentifier decisionId = true) (hnew : b.grants.get? grant.grantId = none)
    (h : Allows sha256 b r now answers) : Allows sha256 (b.put grant) r now answers := by
  rw [allows_iff_selected hdrawn hnamed, selected_eq hid] at h ⊢
  obtain ⟨item, hfind, hreason⟩ := h
  refine ⟨item, ?_, hreason⟩
  have hvalues : (b.put grant).grants.values = b.grants.values ++ [grant] :=
    Dict.values_set_of_none hnew
  rw [hvalues, List.find?_append, hfind]
  rfl

/-- An installation that is no replay puts the grant in. -/
theorem install_eq_ok {grant : CapabilityGrant} {actor : Option String} {item : CapabilityGrant}
    (hnew : b.grants.get? grant.grantId = none)
    (h : b.install grant actor answers = .ok (item, b')) : b' = b.put grant := by
  simp only [install, bind_eq_ok, hnew, pure_eq_ok, Prod.mk.injEq] at h
  obtain ⟨_, -, -, rfl⟩ := h
  rfl

/-- **What a decision rests on.** After any sequence of installations and revocations, a request
that names no grant id is allowed if and only if some installed grant matches it and is current,
exactly where no current grant is hidden. So two brokers that hold the same grants and hide none
decide alike, whatever the order of installation. A grant with a new id never turns an allowance
into a denial. -/
theorem decision_rests_on_grants (sha256 : Bytes → Bytes) (ops : List Op) (r : PolicyRequest)
    (hid : r.expectedGrantId = none) (now : Datetime) (answers : Answers) (decisionId : String)
    (hdrawn : answers.decisionId = .ok decisionId) (hnamed : isIdentifier decisionId = true) :
    ((Allows sha256 (empty.after ops) r now answers ↔ (empty.after ops).Granted r now) ↔
      ¬(empty.after ops).Hidden r now) ∧
    (∀ ops' : List Op, SameGrants (empty.after ops) (empty.after ops') →
      ¬(empty.after ops).Hidden r now → ¬(empty.after ops').Hidden r now →
        (Allows sha256 (empty.after ops) r now answers ↔
          Allows sha256 (empty.after ops') r now answers)) ∧
    (∀ grant actor answers' item b', (empty.after ops).grants.get? grant.grantId = none →
      (empty.after ops).install grant actor answers' = .ok (item, b') →
        Allows sha256 (empty.after ops) r now answers → Allows sha256 b' r now answers) := by
  refine ⟨granted_iff_allows hid hdrawn hnamed, fun ops' hsame h h' => ?_, ?_⟩
  · rw [(granted_iff_allows hid hdrawn hnamed).mpr h, hsame.granted,
      (granted_iff_allows hid hdrawn hnamed).mpr h']
  · intro grant actor answers' item b' hnew hinstall hallows
    rw [install_eq_ok hnew hinstall]
    exact allows_put hid hdrawn hnamed hnew hallows

/-! ## A hidden grant -/

/-- Midnight of a day in 2026. -/
def midnight (day : Nat) (h : 1 ≤ day ∧ day ≤ 31) : Datetime :=
  ⟨2026, 1, day, 0, 0, 0, 0, by decide, by decide, by simpa [daysIn] using h, by decide⟩

/-- A grant to read one file for a month. -/
def readGrant (grantId : String) (h : isIdentifier grantId = true) : CapabilityGrant where
  grantId
  subject := "worker"
  capability := "storage"
  resourceKind := "file"
  resourceId := "report"
  operations := ["read"]
  issuedAt := midnight 1 (by decide)
  expiresAt := midnight 31 (by decide)
  version := 1
  revokedAt := none
  named := List.forall_mem_cons.mpr ⟨h, by decide +kernel⟩
  operates := by decide +kernel
  lasts := by decide
  versioned := by decide

def readRequest : PolicyRequest :=
  ⟨"worker", "storage", "file", "report", "read", none, none, by decide +kernel⟩

/-- A clock at the second day, a valid id, and no authorizer. -/
def plainAnswers : Answers := ⟨.ok (midnight 2 (by decide)), .ok "decision", none⟩

/-- The first grant is revoked, the second is not. -/
def regranted : List Op :=
  [.install (readGrant "first" (by decide +kernel)) none plainAnswers,
    .revoke "first" 1 none plainAnswers,
    .install (readGrant "second" (by decide +kernel)) none plainAnswers]

theorem decision_rests_on_grants_regranted :
    (Allows (fun _ => []) (empty.after regranted) readRequest (midnight 3 (by decide)) plainAnswers ↔
      (empty.after regranted).Granted readRequest (midnight 3 (by decide))) ↔
    ¬(empty.after regranted).Hidden readRequest (midnight 3 (by decide)) :=
  (decision_rests_on_grants (fun _ => []) regranted readRequest rfl (midnight 3 (by decide))
    plainAnswers "decision" rfl (by decide +kernel)).1

/-- The second grant allows the request, and the broker denies it. -/
theorem current_grant_hidden : ¬ ∀ (sha256 : Bytes → Bytes) (ops : List Op) (r : PolicyRequest)
    (now : Datetime) (answers : Answers) (decisionId : String), r.expectedGrantId = none →
      answers.decisionId = .ok decisionId → isIdentifier decisionId = true →
        (Allows sha256 (empty.after ops) r now answers ↔ (empty.after ops).Granted r now) := by
  intro h
  have hiff := h (fun _ => []) regranted readRequest (midnight 3 (by decide)) plainAnswers "decision"
    rfl rfl (by decide +kernel)
  have hgranted : (empty.after regranted).Granted readRequest (midnight 3 (by decide)) := by
    refine ⟨readGrant "second" (by decide +kernel), ?_, ?_, ?_⟩
    all_goals decide +kernel
  obtain ⟨item, hfind, hreason⟩ :=
    (allows_iff_selected rfl (by decide +kernel)).mp (hiff.mpr hgranted)
  have hrevoked : ((empty.after regranted).selected readRequest).all
      (fun item => reason readRequest (midnight 3 (by decide)) item != .allowed) = true := by
    decide +kernel
  rw [hfind, Option.all_some, hreason] at hrevoked
  cases hrevoked

end Broker

end LumaOS.Capability
