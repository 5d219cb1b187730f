import LumaOS.Base.Table
import LumaOS.Capability.Broker

/-!
# The reference administration authority

Model of `AdminAuthority` (`administration.py`): activities are registered, roles defined over them,
roles assigned and assignments revoked, each with a receipt. The clock and the id factory are called
in a fixed order within a call; what they answer there is an argument of it (`Answers`).

Each method checks first (`Op.outcome`) and then writes its map and the state version, before
`_record_locked` appends the receipt. That step calls the clock and the id factory once more, and
when one of them fails, what was written stays (`step`).
-/

namespace LumaOS.Delegation

open LumaOS.Base LumaOS.Text LumaOS.Json
open LumaOS.Capability (isTrimmed isFree)

/-! ## Values -/

/-- The exception classes of `administration.py`; `foreign` is what a callback raises. -/
inductive FaultKind where
  | validation
  | denied
  | conflict
  | foreign
deriving DecidableEq, Repr

structure Fault where
  kind : FaultKind
  message : String
deriving DecidableEq, Repr

def invalid (message : String) : Fault := ⟨.validation, message⟩

/-- A Python argument that should be a string. -/
inductive Arg where
  | text (value : String)
  | other
deriving DecidableEq, Repr

/-- `_identifier`. -/
def identifier (field : String) : Arg → Except Fault String
  | .text value => do
    raiseIf (!isTrimmed value)
      (invalid s!"{field} must be a non-empty trimmed string up to 256 characters")
    raiseIf (!isFree value) (invalid s!"{field} cannot contain NUL or wildcard characters")
    pure value
  | .other => .error (invalid s!"{field} must be a non-empty trimmed string up to 256 characters")

/-- `repr` of a text. What Unicode calls unprintable is escaped in ASCII only. -/
def reprText (value : String) : String :=
  quote ++ String.join (value.toList.map escaped) ++ quote
where
  quote : String :=
    if value.toList.contains '\'' && !value.toList.contains '"' then "\"" else "'"
  escaped (c : Char) : String :=
    if c == '\\' || c.toString == quote then "\\" ++ c.toString
    else if c == '\n' then "\\n"
    else if c == '\r' then "\\r"
    else if c == '\t' then "\\t"
    else if c.toNat < 0x20 || c.toNat == 0x7F then "\\x" ++ hex [UInt8.ofNat c.toNat]
    else c.toString

/-- `_aware_utc`; a value that is no aware datetime is `none`. -/
def awareUtc (field : String) : Option Datetime → Except Fault Datetime
  | some time => .ok time
  | none => .error (invalid s!"{field} must be timezone-aware")

/-- `ADMIN_ROLE`. -/
def adminRole : String := "Admin"

structure RoleDefinition where
  name : String
  activities : List String
  version : Nat
deriving DecidableEq

structure RoleAssignment where
  assignmentId : String
  subject : String
  role : String
  roleVersion : Nat
  activities : List String
  assignedBy : String
  issuedAt : Datetime
  expiresAt : Datetime
  version : Nat
  revokedAt : Option Datetime
deriving DecidableEq

structure DelegationReceipt where
  receiptId : String
  sequence : Nat
  action : String
  actor : String
  target : String
  stateVersion : Nat
  occurredAt : Datetime
  previousDigest : Option String
  digest : String
deriving DecidableEq

/-- `tuple(sorted({_identifier(item, "activity") for item in activities}))`. -/
def activitySet (activities : List Arg) : Except Fault (List String) := do
  let names ← activities.mapM (identifier "activity")
  pure (names.dedup.insertionSort (· ≤ ·))

/-- `RoleDefinition(role, activities)`. -/
def RoleDefinition.postInit (role : Arg) (activities : List Arg) : Except Fault RoleDefinition := do
  let name ← identifier "role" role
  raiseIf (name == adminRole) (invalid "Admin is the fixed root role")
  let activities ← activitySet activities
  raiseIf activities.isEmpty (invalid "a delegated role needs at least one activity")
  pure { name, activities, version := 1 }

/-- `activity_set_digest`. -/
def RoleAssignment.activitySetDigest (sha256 : Bytes → Bytes) (a : RoleAssignment) : String :=
  hex (sha256 (dumps (.object [("activities", .array (a.activities.map Value.string)),
    ("role", .string a.role), ("role_version", .number a.roleVersion)])))

/-! ## The authority -/

/-- What the callbacks answer within one call, by their order: the readings of the clock, and the
ids that the factory makes. -/
structure Answers where
  clock : Nat → Except Fault (Option Datetime)
  ids : Nat → Except Fault Arg

structure Authority where
  bootstrapAdmin : String
  activities : Names
  roles : Dict RoleDefinition
  assignments : Dict RoleAssignment
  receipts : List DelegationReceipt
  stateVersion : Nat

/-- `CONTROL_ACTIVITIES`. -/
def controlActivities : List String :=
  ["admin.activity.register", "admin.role.define", "admin.role.assign", "admin.role.revoke"]

namespace Authority

/-- `AdminAuthority.__init__`. -/
def init (bootstrapAdmin : Arg) (activities : List Arg) : Except Fault Authority := do
  let bootstrapAdmin ← identifier "bootstrap_admin" bootstrapAdmin
  let names ← activities.mapM (identifier "activity")
  pure
    { bootstrapAdmin
      activities := (controlActivities ++ names).foldl (fun s name => s.insert name) ∅
      roles := .empty
      assignments := .empty
      receipts := []
      stateVersion := 1 }

/-- The assignment is in force at a time. -/
def inForce (now : Datetime) (assignment : RoleAssignment) : Bool :=
  assignment.revokedAt.isNone && decide (assignment.issuedAt ≤ now) &&
    decide (now < assignment.expiresAt)

/-- `has_activity`; `time` is `at`, or else what the clock says. -/
def hasActivity (a : Authority) (subject activity : Arg) (time : Except Fault (Option Datetime)) :
    Except Fault Bool := do
  let subject ← identifier "subject" subject
  let activity ← identifier "activity" activity
  let time ← time
  let now ← awareUtc "authorization time" time
  if !a.activities.contains activity then pure false
  else if subject = a.bootstrapAdmin then pure true
  else pure (a.assignments.values.any fun assignment =>
    assignment.subject == subject && inForce now assignment &&
      assignment.activities.contains activity)

/-- `require_activity`. A subject that is no text does not get past `has_activity`. -/
def requireActivity (a : Authority) (subject : Arg) (activity : String)
    (time : Except Fault (Option Datetime)) : Except Fault Unit := do
  let allowed ← a.hasActivity subject (.text activity) time
  match subject with
  | .text value =>
    raiseIf (!allowed)
      ⟨.denied, s!"{reprText value} lacks administrative activity {reprText activity}"⟩
  | .other => pure ()

/-! ## The methods -/

/-- What a method writes to its map. -/
inductive Change where
  | activity (name : String)
  | role (definition : RoleDefinition)
  | assignment (assignment : RoleAssignment)
  | revocation (assignmentId : String) (assignment : RoleAssignment)
deriving DecidableEq

/-- What a method's checks come to: it returns what is there already, or writes. -/
inductive Outcome where
  | unchanged (found : Change)
  | writes (change : Change)
deriving DecidableEq

/-- `register_activity` up to its writes. -/
def registerActivity (a : Authority) (actor activity : Arg) (answers : Answers) :
    Except Fault Outcome := do
  let activity ← identifier "activity" activity
  a.requireActivity actor "admin.activity.register" (answers.clock 0)
  if a.activities.contains activity then pure (.unchanged (.activity activity))
  else pure (.writes (.activity activity))

/-- `define_role` up to its writes. -/
def defineRole (a : Authority) (actor role : Arg) (activities : List Arg)
    (expectedVersion : Option Int) (answers : Answers) : Except Fault Outcome := do
  let candidate ← RoleDefinition.postInit role activities
  a.requireActivity actor "admin.role.define" (answers.clock 0)
  let unknown := candidate.activities.filter fun name => !a.activities.contains name
  raiseIf (!unknown.isEmpty)
    (invalid ("role refers to unregistered activities: [" ++
      ", ".intercalate (unknown.map reprText) ++ "]"))
  match a.roles.get? candidate.name with
  | none => do
    raiseIf expectedVersion.isSome ⟨.conflict, "new role must not specify an expected version"⟩
    pure (.writes (.role candidate))
  | some current => do
    raiseIf (expectedVersion != some (current.version : Int)) ⟨.conflict, "role version changed"⟩
    let updated := { candidate with version := current.version + 1 }
    if updated.activities = current.activities then pure (.unchanged (.role current))
    else pure (.writes (.role updated))

/-- `assign_role` up to its writes. -/
def assignRole (a : Authority) (actor subject role : Arg) (expiresAt : Option Datetime)
    (answers : Answers) : Except Fault Outcome := do
  let subject ← identifier "subject" subject
  let role ← identifier "role" role
  raiseIf (role == adminRole)
    ⟨.denied, "Admin root delegation is not an ordinary assignable activity"⟩
  let expires ← awareUtc "expires_at" expiresAt
  a.requireActivity actor "admin.role.assign" (answers.clock 0)
  let time ← answers.clock 1
  let now ← awareUtc "clock result" time
  match a.roles.get? role with
  | none => .error (invalid "role is not defined")
  | some definition => do
    let drawn ← answers.ids 0
    let assignmentId ← identifier "assignment_id" drawn
    let assignedBy ← identifier "assigned_by" actor
    raiseIf (decide (expires ≤ now)) (invalid "expires_at must be later than issued_at")
    pure (.writes (.assignment
      { assignmentId
        subject
        role
        roleVersion := definition.version
        activities := definition.activities
        assignedBy
        issuedAt := now
        expiresAt := expires
        version := 1
        revokedAt := none }))

/-- `revoke_assignment` up to its writes. -/
def revokeAssignment (a : Authority) (actor assignmentId : Arg) (expectedVersion : Int)
    (answers : Answers) : Except Fault Outcome := do
  let assignmentId ← identifier "assignment_id" assignmentId
  a.requireActivity actor "admin.role.revoke" (answers.clock 0)
  match a.assignments.get? assignmentId with
  | none => .error ⟨.conflict, "assignment does not exist"⟩
  | some current => do
    raiseIf ((current.version : Int) != expectedVersion) ⟨.conflict, "assignment version changed"⟩
    if current.revokedAt.isSome then pure (.unchanged (.revocation assignmentId current))
    else do
      let time ← answers.clock 1
      let now ← awareUtc "clock result" time
      pure (.writes (.revocation assignmentId
        { current with version := current.version + 1, revokedAt := some now }))

/-! ## Writes and receipts -/

/-- The write to the map, and the state version. -/
def apply (a : Authority) (change : Change) : Authority :=
  let a := { a with stateVersion := a.stateVersion + 1 }
  match change with
  | .activity name => { a with activities := a.activities.insert name }
  | .role definition => { a with roles := a.roles.set definition.name definition }
  | .assignment assignment =>
    { a with assignments := a.assignments.set assignment.assignmentId assignment }
  | .revocation assignmentId assignment =>
    { a with assignments := a.assignments.set assignmentId assignment }

/-- The action and the target of a receipt. -/
def subject (sha256 : Bytes → Bytes) : Change → String × String
  | .activity name => ("activity.register", name)
  | .role definition => ("role.define", definition.name ++ "@" ++ toString definition.version)
  | .assignment a => ("role.assign", a.assignmentId ++ ":" ++ a.subject ++ ":" ++ a.role ++ "@" ++
      toString a.roleVersion ++ ":" ++ a.activitySetDigest sha256)
  | .revocation assignmentId a => ("role.revoke", assignmentId ++ "@" ++ toString a.version)

/-- The digest that `_record_locked` computes of a receipt's payload. -/
def payloadDigest (sha256 : Bytes → Bytes) (r : DelegationReceipt) : String :=
  hex (sha256 (dumps (.object [("action", .string r.action), ("actor", .string r.actor),
    ("occurred_at", .string r.occurredAt.isoformat),
    ("previous_digest", optional Value.string r.previousDigest),
    ("receipt_id", .string r.receiptId), ("sequence", .number r.sequence),
    ("state_version", .number r.stateVersion), ("target", .string r.target)])))

/-- `_record_locked`; `clock` and `drawn` are what the two callbacks answer to it. -/
def recordLocked (sha256 : Bytes → Bytes) (a : Authority) (action target : String) (actor : String)
    (clock : Except Fault (Option Datetime)) (drawn : Except Fault Arg) : Except Fault Authority := do
  let time ← clock
  let occurred ← awareUtc "clock result" time
  let drawn ← drawn
  let receiptId ← identifier "receipt_id" drawn
  let receipt : DelegationReceipt :=
    { receiptId
      sequence := a.receipts.length + 1
      action
      actor
      target
      stateVersion := a.stateVersion
      occurredAt := occurred
      previousDigest := a.receipts.getLast?.map DelegationReceipt.digest
      digest := "" }
  let receipt := { receipt with digest := payloadDigest sha256 receipt }
  pure { a with receipts := a.receipts ++ [receipt] }

/-! ## Calls -/

/-- A call of one of the four mutations. -/
inductive Op where
  | registerActivity (actor activity : Arg) (answers : Answers)
  | defineRole (actor role : Arg) (activities : List Arg) (expectedVersion : Option Int)
      (answers : Answers)
  | assignRole (actor subject role : Arg) (expiresAt : Option Datetime) (answers : Answers)
  | revokeAssignment (actor assignmentId : Arg) (expectedVersion : Int) (answers : Answers)

namespace Op

def outcome (a : Authority) : Op → Except Fault Outcome
  | .registerActivity actor activity answers => a.registerActivity actor activity answers
  | .defineRole actor role activities expectedVersion answers =>
    a.defineRole actor role activities expectedVersion answers
  | .assignRole actor subject role expiresAt answers =>
    a.assignRole actor subject role expiresAt answers
  | .revokeAssignment actor assignmentId expectedVersion answers =>
    a.revokeAssignment actor assignmentId expectedVersion answers

def actor : Op → Arg
  | .registerActivity actor .. | .defineRole actor .. | .assignRole actor ..
  | .revokeAssignment actor .. => actor

/-- The reading of the clock that the receipt takes: the checks read it once or twice before. -/
def receiptTime : Op → Except Fault (Option Datetime)
  | .registerActivity _ _ answers | .defineRole _ _ _ _ answers => answers.clock 1
  | .assignRole _ _ _ _ answers | .revokeAssignment _ _ _ answers => answers.clock 2

/-- The id that the receipt takes: an assignment has taken one before. -/
def receiptId : Op → Except Fault Arg
  | .assignRole _ _ _ _ answers => answers.ids 1
  | .registerActivity _ _ answers | .defineRole _ _ _ _ answers
  | .revokeAssignment _ _ _ answers => answers.ids 0

/-- The text of the actor, which the checks have found to be a string. -/
def actorText (op : Op) : String :=
  match op.actor with
  | .text value => value
  | .other => ""

end Op

/-- One call. The map and the version are written before the receipt, so they stay when it fails. -/
def step (sha256 : Bytes → Bytes) (a : Authority) (op : Op) : Except Fault Change × Authority :=
  match op.outcome a with
  | .error e => (.error e, a)
  | .ok (.unchanged found) => (.ok found, a)
  | .ok (.writes change) =>
    let written := a.apply change
    let (action, target) := subject sha256 change
    match written.recordLocked sha256 action target op.actorText op.receiptTime op.receiptId with
    | .error e => (.error e, written)
    | .ok recorded => (.ok change, recorded)

end Authority

end LumaOS.Delegation
