import LumaOS.Governance.Grants
import LumaOS.Resources.Ledger

/-!
# The inference gate

Model of `resource_manager/requests.rs:12-437`: the one inference slot within a worker's lease. A
request takes the slot (`begin`), binds its prompt (`admit`) and gives the slot back when it is done
(`finish`). Every other end of a request, a cancellation, a deadline or a dead caller, only fences
it: the slot is free again once the resource ledger says that the worker's lease has drained.

The caller's process is a `Pin`, the descriptor held on it; whether it is still alive is an argument
of `maintainChecked`. What the gate remembers of the durable journal is its `Retention`
(`requests/journal.rs:83-103`).
-/

namespace LumaOS.Inference

open LumaOS.Base LumaOS.Text LumaOS.Json LumaOS.Governance
open LumaOS.Resources (Token Lease Ledger)

/-- `MAX_RECEIPTS`. -/
def maxReceipts : Nat := 256

/-- `MAX_OUTPUT`. -/
def maxOutput : UInt64 := 128

/-- `MAX_REQUEST_MS`. -/
def maxRequestMs : UInt64 := 1800000

/-- `nonce_valid`. -/
def nonceValid (nonce : String) : Bool := nonce.utf8ByteSize == 32 && nonce.toList.all lowerHex

/-- `digest_valid`. -/
def digestValid (digest : String) : Bool := digest.utf8ByteSize == 64 && digest.toList.all lowerHex

/-! ## Records -/

/-- `requests::Message`, without `Inspect`, which no method of the gate takes. -/
inductive Message where
  | begin (nonce : String) (worker : Token) (profile : String) (inputDigest : String)
      (maxOutputTokens : UInt64) (requestDeadline : UInt64)
  | admitPrompt (nonce : String) (worker : Token) (promptTokens : UInt64) (tokenDigest : String)
  | finish (nonce : String) (worker : Token) (promptTokens : UInt64) (outputTokens : UInt64)
      (resultDigest : String)
  | cancel (nonce : String) (worker : Token)

/-- `requests::Caller`. -/
structure Caller where
  pid : UInt32
  start : UInt64
  boot : String
  uid : UInt32
deriving DecidableEq

/-- `requests::Phase`. -/
inductive Phase where
  | preparing
  | admitted
  | completed
  | draining
  | released
deriving DecidableEq

/-- The descriptor of a caller's process. -/
abbrev Pin := Nat

/-- `requests::Record`. -/
structure Record where
  caller : Caller
  pin : Option Pin
  nonce : String
  worker : Token
  profile : String
  limit : UInt64
  context : UInt64
  untilMs : UInt64
  phase : Phase
  prompt : Option UInt64
  tokenDigest : Option String
  output : Option UInt64
  resultDigest : Option String
  inputDigest : Option String
  product : Option Audit

/-- `matches!(phase, Phase::Completed | Phase::Released)`. -/
def Record.terminal (r : Record) : Bool := r.phase == .completed || r.phase == .released

/-- `matches!(phase, Phase::Preparing | Phase::Admitted | Phase::Draining)`. -/
def Record.outstanding (r : Record) : Bool :=
  r.phase == .preparing || r.phase == .admitted || r.phase == .draining

def Phase.toJson : Phase → Value
  | .preparing => .string "preparing"
  | .admitted => .string "admitted"
  | .completed => .string "completed"
  | .draining => .string "draining"
  | .released => .string "released"

/-- `resources::decimal` of a `u64`. -/
def u64Decimal (n : UInt64) : Value := decimal n.toNat

/-- `Record::receipt`. -/
def Record.receipt (r : Record) : Value :=
  sorted (.object ([("kind", .string "permit"), ("nonce", .string r.nonce),
    ("worker", r.worker.toJson), ("phase", r.phase.toJson), ("profile", .string r.profile),
    ("max_output_tokens", u64Decimal r.limit), ("context_tokens", u64Decimal r.context),
    ("request_deadline", u64Decimal r.untilMs), ("input_digest", optional .string r.inputDigest),
    ("prompt_tokens", optional u64Decimal r.prompt),
    ("token_digest", optional .string r.tokenDigest),
    ("output_tokens", optional u64Decimal r.output),
    ("result_digest", optional .string r.resultDigest), ("slot_released", .bool r.terminal),
    ("worker_resources_released", .bool false)] ++ skipNone "product" Audit.toJson r.product))

/-- `journal::Archive`. -/
structure Archive where
  batch : UInt64
  sha256 : String

/-- `journal::Origin`. -/
inductive Origin where
  | freshResourceState
  | reviewedLegacyMigration (ledgerReview : String) (managerEpoch : String) (generation : UInt64)

/-- `journal::Retention`. -/
structure Retention where
  origin : Origin
  archives : List Archive
  retired : Names
  published : Option String
  poisoned : Bool
  authorityLost : Bool

/-- `Retention::check`. -/
def Retention.check (r : Retention) : Result Unit :=
  refuseIf (r.poisoned || r.authorityLost)
    "request publication uncertain; preserve state and restart authority"

/-- `requests::Gate`. -/
structure Gate where
  records : List Record
  retention : Retention

namespace Gate

/-- `Gate::occupied`. -/
def occupied (g : Gate) : Bool :=
  (g.retention.poisoned || g.retention.authorityLost) || g.records.any Record.outstanding

/-! ## Methods -/

/-- `Gate::begin`. -/
def begin (caller : Caller) (pin : Pin) (message : Message) (context time : UInt64) :
    Mut Gate Value := do
  match message with
  | .begin nonce worker profile inputDigest maxOutputTokens requestDeadline => do
    let g ← get
    g.retention.check
    refuseIf (!nonceValid nonce || !digestValid inputDigest || maxOutputTokens == 0 ||
        maxOutputTokens > maxOutput || maxOutputTokens ≥ context || requestDeadline ≤ time ||
        requestDeadline - time > maxRequestMs)
      "inference request budget or identity denied"
    match g.records.find? fun record => record.nonce == nonce with
    | some prior => do
      refuseIf (prior.caller != caller || prior.worker != worker || prior.profile != profile ||
          prior.inputDigest != some inputDigest || prior.limit != maxOutputTokens ||
          prior.untilMs != requestDeadline || prior.context != context ||
          !(prior.phase == .preparing || prior.phase == .admitted))
        "inference replay differs or belongs to a completed generation"
      pure prior.receipt
    | none => do
      refuseIf (g.occupied || g.records.length ≥ maxReceipts || g.retention.retired.contains nonce)
        "inference slot or retained request inventory exhausted"
      let record : Record :=
        { caller
          pin := some pin
          nonce
          worker
          profile
          limit := maxOutputTokens
          context
          untilMs := requestDeadline
          phase := .preparing
          prompt := none
          tokenDigest := none
          output := none
          resultDigest := none
          inputDigest := some inputDigest
          product := none }
      set { g with records := g.records ++ [record] }
      pure record.receipt
  | _ => refuse "invalid inference begin shape"

/-- `Gate::record`: where the caller's own record of this nonce and worker stands. -/
def record (g : Gate) (caller : Caller) (nonce : String) (worker : Token) :
    Result (Nat × Record) := do
  g.retention.check
  refuseIf (!nonceValid nonce) "invalid inference request identity"
  let index ← okOr (g.records.findIdx? fun record =>
      record.caller == caller && record.nonce == nonce && record.worker == worker)
    "unknown, stale or foreign inference generation"
  let found ← expect g.records[index]? "index out of bounds"
  pure (index, found)

/-- A write through the reference that `record` returned. -/
def write (g : Gate) (index : Nat) (record : Record) : Gate :=
  { g with records := g.records.modify index fun _ => record }

/-- `Gate::admit`. -/
def admitPrompt (caller : Caller) (message : Message) (time : UInt64) : Mut Gate Value := do
  match message with
  | .admitPrompt nonce worker promptTokens tokenDigest => do
    let g ← get
    let (index, record) ← g.record caller nonce worker
    refuseIf (time ≥ record.untilMs || record.inputDigest.isNone || promptTokens == 0 ||
        !digestValid tokenDigest ||
        (u64Add promptTokens record.limit).all fun sum => sum > record.context)
      "rendered prompt and maximum output do not fit the reserved context"
    if record.phase = .admitted then do
      refuseIf (!(record.prompt == some promptTokens && record.tokenDigest == some tokenDigest))
        "inference admission replay differs"
      pure record.receipt
    else do
      refuseIf (record.phase != .preparing) "inference generation is fenced or completed"
      let record :=
        { record with
          prompt := some promptTokens
          tokenDigest := some tokenDigest
          phase := .admitted }
      set (g.write index record)
      pure record.receipt
  | _ => refuse "invalid inference admission shape"

/-- `Gate::finish`. -/
def finish (caller : Caller) (message : Message) (time : UInt64) : Mut Gate Value := do
  match message with
  | .finish nonce worker promptTokens outputTokens resultDigest => do
    let g ← get
    let (index, record) ← g.record caller nonce worker
    refuseIf (time ≥ record.untilMs || record.inputDigest.isNone ||
        record.prompt != some promptTokens || outputTokens == 0 || outputTokens > record.limit ||
        !digestValid resultDigest)
      "inference completion does not match the accepted budget"
    if record.phase = .completed then do
      refuseIf (!(record.output == some outputTokens && record.resultDigest == some resultDigest))
        "inference completion replay differs"
      pure record.receipt
    else do
      refuseIf (record.phase != .admitted) "inference generation is not admitted"
      let record :=
        { record with
          output := some outputTokens
          resultDigest := some resultDigest
          phase := .completed
          pin := none }
      set (g.write index record)
      pure record.receipt
  | _ => refuse "invalid inference finish shape"

/-- `Gate::cancel`. -/
def cancel (caller : Caller) (nonce : String) (worker : Token) : Mut Gate Value := do
  let g ← get
  let (index, record) ← g.record caller nonce worker
  if record.phase = .preparing ∨ record.phase = .admitted then do
    let record := { record with phase := .draining }
    set (g.write index record)
    pure record.receipt
  else pure record.receipt

/-! ## Maintenance -/

/-- The condition of `maintain_checked` that fences a record. -/
def fences (lease : Lease) (time : UInt64) (alive : Caller → Pin → Result Bool) (record : Record) :
    Result Bool :=
  if record.untilMs ≤ time ∨ lease.state ≠ .active ∨ lease.deadlineMs ≤ time.toNat then pure true
  else match record.pin with
    | some pin => do
      let live ← alive record.caller pin
      pure !live
    | none => pure true

/-- One record of `maintain_checked`: what the iteration leaves of it, and the worker it cancels.
Every failure comes before the write. -/
def maintainRecord (ledger : Ledger) (time : UInt64) (alive : Caller → Pin → Result Bool)
    (record : Record) : Result (Record × List Token) := do
  if record.terminal then return (record, [])
  let lease ← okOr (ledger.leases.find? fun l => l.token == record.worker)
    "outstanding inference allocation receipt unavailable"
  if lease.state = .released then
    return ({ record with phase := .released, pin := none }, [])
  let lost ← fences lease time alive record
  let record := if lost then { record with phase := .draining } else record
  return (record,
    if record.phase = .draining ∧ lease.state = .active then [record.worker] else [])

/-- The loop over `&mut self.records`: an iteration that fails leaves the writes of those before
it. -/
def maintainLoop (body : Record → Result (Record × List Token)) :
    List Record → Result (List Token) × List Record
  | [] => (.ok [], [])
  | record :: rest =>
    match body record with
    | .error e => (.error e, record :: rest)
    | .ok (next, cancelled) =>
      let (result, rest) := maintainLoop body rest
      (result.map (cancelled ++ ·), next :: rest)

/-- `Gate::maintain_checked`. -/
def maintainChecked (ledger : Ledger) (time : UInt64) (alive : Caller → Pin → Result Bool) :
    Mut Gate (List Token) := do
  let g ← get
  g.retention.check
  let (result, records) := maintainLoop (maintainRecord ledger time alive) g.records
  set { g with records }
  result

end Gate

end LumaOS.Inference
