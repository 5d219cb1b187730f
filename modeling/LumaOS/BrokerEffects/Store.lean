import LumaOS.Base.Interrupt
import LumaOS.Json

/-!
# The journal of broker effects

`broker_effects.rs:1-197`: `Store::execute`, `Store::publish`, `validate` and `initialize`. The file
`effects.json` is the journal it holds; `publish` writes no other form, and `read` takes none.

A rename is seen at once and lasts when the directory is synced: `visible` is the file under its
name, `durable` the one that a loss of power leaves. The closures `authorize` and `effect` are calls
that show their answer, `false` for an error; a closure that panics is a call that fails.

`dispatched` and `succeeded` are a history of the effects, for the results; no code reads them.
-/

namespace LumaOS.BrokerEffects

open LumaOS.Base LumaOS.Json

def maxBytes : Nat := 4 * 1024 * 1024
def maxRecords : Nat := 4096

inductive Action where
  | startWorker
  | stopWorker
deriving DecidableEq

inductive State where
  | applying
  | completed
  | notApplied
deriving DecidableEq

structure Record where
  requestId : String
  authenticatedUid : UInt32
  action : Action
  state : State
deriving DecidableEq

structure Journal where
  schemaVersion : UInt32
  records : List Record
deriving DecidableEq

/-! ## Its text -/

def Action.toJson : Action → Value
  | .startWorker => .string "start-worker"
  | .stopWorker => .string "stop-worker"

def State.toJson : State → Value
  | .applying => .string "applying"
  | .completed => .string "completed"
  | .notApplied => .string "not-applied"

def Record.toJson (r : Record) : Value := .object [("request_id", .string r.requestId),
  ("authenticated_uid", u32Json r.authenticatedUid), ("action", r.action.toJson),
  ("state", r.state.toJson)]

def Journal.toJson (j : Journal) : Value := .object [("schema_version", u32Json j.schemaVersion),
  ("records", .array (j.records.map Record.toJson))]

/-! ## What a journal has to be -/

/-- `request_id`. -/
def requestId (value : String) : Bool :=
  !value.isEmpty && value.utf8ByteSize ≤ 64 && value.toList.all fun c => c.isAlphanum || c == '-'

/-- One record of the loop of `validate`, with its index; `identities` are those before it. -/
def validateRecord (count : Nat) (identities : List String) (r : Record × Nat) :
    Result (List String) := do
  refuseIf (!requestId r.1.requestId || r.1.authenticatedUid != 0 ||
    identities.contains r.1.requestId || (r.1.state == .applying && r.2 + 1 != count))
    "invalid broker effect record"
  pure (r.1.requestId :: identities)

def validate (j : Journal) : Result Unit := do
  refuseIf (j.schemaVersion != 1 || j.records.length > maxRecords)
    "invalid or exhausted broker effect journal"
  let _ ← j.records.zipIdx.foldlM (validateRecord j.records.length) []
  pure ()

/-! ## The disk -/

/-- An effect that was dispatched, with the durable journal of that moment. -/
structure Dispatch where
  request : String
  action : Action
  journal : Journal

structure Disk where
  visible : Journal
  durable : Journal
  dispatched : List Dispatch
  succeeded : List (String × Action)

/-- `initialize`. -/
def Disk.initialized : Disk := ⟨⟨1, []⟩, ⟨1, []⟩, [], []⟩

abbrev Work := Calls Disk Bool

/-- `Store::read`. -/
def read : Work Journal := call fun _ => do
  let d ← get
  refuseIf ((toVec d.visible.toJson).length > maxBytes) "private file exceeds its bound"
  validate d.visible
  pure d.visible

/-- `fs::rename` of the written temporary file. -/
def rename (j : Journal) : Work PUnit := call fun _ => modify fun d => { d with visible := j }

/-- `sync_all` of the directory. -/
def syncDirectory : Work PUnit := call fun _ => modify fun d => { d with durable := d.visible }

/-- `Store::publish`, with `write_atomic`. -/
def publish (j : Journal) : Work PUnit := do
  validate j
  refuseIf ((toVec j.toJson).length > maxBytes) "broker effect journal exceeds capacity"
  rename j
  syncDirectory

/-! ## `Store::execute` -/

/-- `authorize()`. -/
def authorize : Work Bool := call fun granted => pure granted

/-- `effect()`. -/
def effect (identity : String) (action : Action) : Work PUnit := call fun succeeds => do
  modify fun d => { d with dispatched := d.dispatched ++ [⟨identity, action, d.durable⟩] }
  if succeeds then modify fun d => { d with succeeded := (identity, action) :: d.succeeded }
  else refuse "effect failed"

/-- `journal.records[index].state = state`. -/
def Journal.setState (j : Journal) (index : Nat) (state : State) : Journal :=
  { j with records := j.records.modify index fun r => { r with state } }

/-- What `execute` does with a request that the journal knows. -/
def replay (record : Record) (uid : UInt32) (action : Action) : Work Bool := do
  refuseIf (record.authenticatedUid != uid || record.action != action)
    "broker effect replay conflict"
  match record.state with
  | .completed => do
    syncDirectory
    pure true
  | _ => refuse "broker effect was not applied; use a new authorized request"

/-- What `execute` does with a new request. -/
def dispatch (journal : Journal) (identity : String) (uid : UInt32) (action : Action) :
    Work Bool := do
  refuseIf (journal.records.length ≥ maxRecords)
    "broker effect journal capacity exhausted; no automatic rotation"
  let index := journal.records.length
  let applying := { journal with
    records := journal.records ++ [⟨identity, uid, action, .applying⟩] }
  publish applying
  let granted ← authorize
  if granted then do
    effect identity action
    publish (applying.setState index .completed)
    pure false
  else do
    publish (applying.setState index .notApplied)
    refuse "effect-time authorization denied before dispatch"

/-- `Store::execute`. -/
def execute (identity : String) (uid : UInt32) (action : Action) : Work Bool := do
  refuseIf (!requestId identity || uid != 0) "invalid laboratory effect identity"
  let journal ← read
  let granted ← authorize
  refuseIf (!granted) "broker effect authorization denied"
  refuseIf (journal.records.any fun r => r.state == .applying)
    "broker effect outcome uncertain; reviewed reconciliation required"
  match journal.records.find? fun r => r.requestId == identity with
  | some record => replay record uid action
  | none => dispatch journal identity uid action

/-! ## Runs -/

/-- What happens to a journal: a call, whose replies may run out; a loss of power, which leaves what
is durable; and the disk, which may write back on its own. -/
inductive Op where
  | execute (identity : String) (uid : UInt32) (action : Action) (replies : List (Reply Bool))
  | powerLoss
  | writeBack

def step (d : Disk) : Op → Option (Result Bool) × Disk
  | .execute identity uid action replies =>
    let (result, left) := Mut.exec (execute identity uid action) ⟨d, replies⟩
    (some result, left.world)
  | .powerLoss => (none, { d with visible := d.durable })
  | .writeBack => (none, { d with durable := d.visible })

end LumaOS.BrokerEffects
