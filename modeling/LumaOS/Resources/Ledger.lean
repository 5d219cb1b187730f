import LumaOS.Base.Loop
import LumaOS.Base.Table
import LumaOS.Json

/-!
# The resource ledger and its validation

Model of `Ledger` and its parts (`resources.rs:56-344`): domains with a capacity and a reserve,
leases that hold byte reservations in domains, archive references, and `Ledger::validate`, the
check every published ledger passes.

`u64` quantities are `Nat`; every addition the source checks for overflow is checked at `2 ^ 64`
here (`checkedAdd`), and the plain `-` panics where it would underflow (`minus`: the release
profile keeps overflow checks on), so no result depends on the word size otherwise. `deadline - now`
stands behind `deadline <= now ||` and cannot. Records keep the source's fields; `review` (`resources.rs:724-734`) hashes the compact JSON of the ledger with `observed`
zeroed, with SHA-256 as a parameter.
-/

namespace LumaOS.Resources

open LumaOS.Base LumaOS.Text LumaOS.Json

def maxRecords : Nat := 4096
def maxArchives : Nat := 64

/-- `identifier` (`resources.rs:37-43`). -/
def identifier (value : String) : Bool :=
  !value.isEmpty && value.utf8ByteSize ≤ 128 &&
    value.toList.all fun c => c.isAlphanum || c == '-' || c == ':' || c == '.'

/-- `a.checked_add(b).ok_or(message)?` on `u64`. -/
def checkedAdd (a b : Nat) (message : String) : Result Nat :=
  okOr (if a + b < 2 ^ 64 then some (a + b) else none) message

/-- `a.checked_sub(b).ok_or(message)?` on `u64`. -/
def checkedSub (a b : Nat) (message : String) : Result Nat :=
  okOr (if b ≤ a then some (a - b) else none) message

/-- `a - b` on `u64` with overflow checks. -/
def minus (a b : Nat) : Result Nat :=
  expect (if b ≤ a then some (a - b) else none) "attempt to subtract with overflow"

/-! ## Records -/

structure Domain where
  capacity : Nat
  reserve : Nat
  pressureEnter : Nat
  pressureExit : Nat
  observed : Nat
  retained : Nat
  pressure : Bool
  quarantined : Bool
  epoch : Nat
deriving DecidableEq, Repr

/-- `Domain::validate`. -/
def Domain.validate (d : Domain) : Result Unit :=
  refuseIf (d.capacity == 0 || d.reserve ≥ d.capacity || d.epoch == 0 ||
      d.pressureEnter > d.capacity || d.pressureEnter ≤ d.reserve ||
      d.pressureExit > d.pressureEnter || d.pressureExit < d.reserve)
    "invalid resource domain"

structure Reservation where
  domain : String
  loading : Nat
  serving : Nat
deriving DecidableEq, Repr

/-- `Reservation::peak`. -/
def Reservation.peak (r : Reservation) : Nat := max r.loading r.serving

structure Owner where
  uid : Nat
  pid : Nat
  startTicks : Nat
  boot : String
  cgroupDevice : Nat
  cgroupInode : Nat
deriving DecidableEq, Repr

structure Token where
  leaseId : String
  generation : Nat
  managerEpoch : String
deriving DecidableEq, Repr

inductive State where
  | active
  | draining
  | released
deriving DecidableEq, Repr

structure Lease where
  token : Token
  owner : Owner
  request : String
  binding : String
  reservations : List Reservation
  deadlineMs : Nat
  state : State
  reason : String
  outputSha256 : Option String
  outputDomainEpochs : Option (Table Nat)
  outputFenced : Bool
deriving DecidableEq

structure Archive where
  throughGeneration : Nat
  sha256 : String
deriving DecidableEq, Repr

structure Ledger where
  schemaVersion : Nat
  managerEpoch : String
  generation : Nat
  domains : Table Domain
  archives : List Archive
  leases : List Lease
deriving DecidableEq

namespace Ledger

/-- `Ledger::empty`. -/
def empty : Ledger where
  schemaVersion := 1
  managerEpoch := ""
  generation := 0
  domains := ∅
  archives := []
  leases := []

/-! ## The charge of a domain -/

/-- `Ledger::charged` (`resources.rs:334-344`): retained bytes, then the peak of every reservation
in `domain` of every unreleased lease, with each addition checked. -/
def charged (l : Ledger) (domain : String) : Result Nat := do
  let d ← okOr l.domains[domain]? "unknown domain"
  (l.leases.filter fun lease => lease.state != .released).foldlM (fun sum lease =>
    (lease.reservations.filter fun r => r.domain == domain).foldlM (fun sum r =>
      checkedAdd sum r.peak "resource byte accounting overflow") sum) d.retained

/-! ## Validation -/

/-- One step of the loop of `reservations_valid`; `last` is the previous reservation's domain. -/
def reservationStep (l : Ledger) (last : String) (r : Reservation) : Result String := do
  refuseIf (!decide (last < r.domain) || r.peak == 0 || !l.domains.contains r.domain)
    "unknown, duplicate, unordered or empty resource reservation"
  pure r.domain

/-- `Ledger::reservations_valid` (`resources.rs:320-332`). -/
def reservationsValid (l : Ledger) (reservations : List Reservation) : Result Unit := do
  refuseIf (reservations.isEmpty || reservations.length > 16) "invalid resource plan"
  let _ ← reservations.foldlM l.reservationStep ""
  pure ()

/-- The `output_domain_epochs` check of `validate` (`resources.rs:294-307`). The source indexes
`self.domains` once the keys are known to be reserved domains. -/
def outputEpochsValid (l : Ledger) (lease : Lease) : Result Unit :=
  match lease.outputDomainEpochs with
  | none => .ok ()
  | some epochs => do
    refuseIf (lease.outputSha256.isNone || epochs.keys != lease.reservations.map (·.domain))
      "invalid computation domain epoch snapshot"
    epochs.toList.forM fun e => do
      let d ← expect l.domains[e.1]? "no entry found for key"
      refuseIf (e.2 == 0 || e.2 > d.epoch || (lease.state == .active && e.2 != d.epoch))
        "invalid computation domain epoch snapshot"

/-- The checks of one archive reference; the accumulator is `previous`. -/
def archiveStep (l : Ledger) (previous : Nat) (a : Archive) : Result Nat := do
  refuseIf (a.throughGeneration ≤ previous || a.throughGeneration > l.generation ||
      !isHash a.sha256)
    "invalid resource archive chain"
  pure a.throughGeneration

/-- What the lease loop of `validate` remembers: the identifiers and `(owner, request)` pairs
seen, and the previous generation. -/
structure Seen where
  ids : List String
  requests : List (Owner × String)
  previous : Nat

/-- The checks of one lease (`resources.rs:265-311`). `clone_key` is every field of the owner. -/
def leaseStep (l : Ledger) (seen : Seen) (lease : Lease) : Result Seen := do
  refuseIf (!identifier lease.token.leaseId || seen.ids.contains lease.token.leaseId ||
      !identifier lease.token.managerEpoch || lease.token.generation ≤ seen.previous ||
      lease.token.generation > l.generation || !identifier lease.request ||
      !identifier lease.owner.boot || lease.owner.pid == 0 || lease.owner.startTicks == 0 ||
      lease.owner.cgroupInode == 0 || lease.deadlineMs == 0 ||
      lease.binding.utf8ByteSize != 64 || !lease.binding.toList.all asciiHexdigit ||
      !identifier lease.reason ||
      (lease.outputFenced && (lease.outputSha256.isNone || lease.state == .active)) ||
      lease.outputSha256.any (fun digest => !isHash digest) ||
      seen.requests.contains (lease.owner, lease.request))
    "invalid resource lease or replay inventory"
  l.reservationsValid lease.reservations
  l.outputEpochsValid lease
  refuseIf (lease.state == .active && lease.token.managerEpoch != l.managerEpoch)
    "active lease belongs to a stale manager"
  pure { ids := lease.token.leaseId :: seen.ids
         requests := (lease.owner, lease.request) :: seen.requests
         previous := lease.token.generation }

/-- The identity and shape of one domain. -/
def domainStep (e : String × Domain) : Result Unit := do
  refuseIf (!identifier e.1) "invalid resource domain identity"
  e.2.validate

/-- The overcommit check of one domain. -/
def chargeStep (l : Ledger) (e : String × Domain) : Result Unit := do
  let charged ← l.charged e.1
  let room ← minus e.2.capacity e.2.reserve
  refuseIf (charged > room && !e.2.quarantined) "unquarantined resource overcommit"

/-- `Ledger::validate` (`resources.rs:222-318`). -/
def validate (l : Ledger) : Result Unit := do
  refuseIf (l.schemaVersion != 1 || l.leases.length > maxRecords || l.domains.size > 16 ||
      l.archives.length > maxArchives)
    "unsupported or exhausted resource ledger"
  if l.managerEpoch.isEmpty then
    refuseIf (l.generation != 0 || !l.domains.isEmpty || !l.leases.isEmpty || !l.archives.isEmpty)
      "invalid uninitialized resource ledger"
  else do
    refuseIf (!identifier l.managerEpoch || l.domains.isEmpty)
      "invalid resource manager epoch or inventory"
    l.domains.toList.forM domainStep
    let previous ← l.archives.foldlM l.archiveStep 0
    let _ ← l.leases.foldlM l.leaseStep { ids := [], requests := [], previous }
    l.domains.toList.forM l.chargeStep

end Ledger

/-! ## The review digest -/

def Domain.toJson (d : Domain) : Value :=
  .object [("capacity", decimal d.capacity), ("reserve", decimal d.reserve),
    ("pressure_enter", decimal d.pressureEnter), ("pressure_exit", decimal d.pressureExit),
    ("observed", decimal d.observed), ("retained", decimal d.retained),
    ("pressure", .bool d.pressure), ("quarantined", .bool d.quarantined),
    ("epoch", decimal d.epoch)]

def Reservation.toJson (r : Reservation) : Value :=
  .object [("domain", .string r.domain), ("loading", decimal r.loading),
    ("serving", decimal r.serving)]

def Owner.toJson (o : Owner) : Value :=
  .object [("uid", .number o.uid), ("pid", .number o.pid), ("start_ticks", decimal o.startTicks),
    ("boot", .string o.boot), ("cgroup_device", decimal o.cgroupDevice),
    ("cgroup_inode", decimal o.cgroupInode)]

def Token.toJson (t : Token) : Value :=
  .object [("lease_id", .string t.leaseId), ("generation", decimal t.generation),
    ("manager_epoch", .string t.managerEpoch)]

def State.toJson : State → Value
  | .active => .string "active"
  | .draining => .string "draining"
  | .released => .string "released"

/-- `Lease`, with the `skip_serializing_if` fields left out when absent. -/
def Lease.toJson (lease : Lease) : Value :=
  .object ([("token", lease.token.toJson), ("owner", lease.owner.toJson),
    ("request", .string lease.request), ("binding", .string lease.binding),
    ("reservations", .array (lease.reservations.map Reservation.toJson)),
    ("deadline_ms", decimal lease.deadlineMs), ("state", lease.state.toJson),
    ("reason", .string lease.reason)] ++
    (lease.outputSha256.map fun d => ("output_sha256", Value.string d)).toList ++
    (lease.outputDomainEpochs.map fun m =>
      ("output_domain_epochs", Value.object (m.toList.map fun e => (e.1, decimal e.2)))).toList ++
    (if lease.outputFenced then [("output_fenced", .bool true)] else []))

def Archive.toJson (a : Archive) : Value :=
  .object [("through_generation", decimal a.throughGeneration), ("sha256", .string a.sha256)]

namespace Ledger

def toJson (l : Ledger) : Value :=
  .object [("schema_version", .number l.schemaVersion),
    ("manager_epoch", .string l.managerEpoch), ("generation", decimal l.generation),
    ("domains", .object (l.domains.toList.map fun e => (e.1, e.2.toJson))),
    ("archives", .array (l.archives.map Archive.toJson)),
    ("leases", .array (l.leases.map Lease.toJson))]

/-- `Ledger::review` (`resources.rs:724-734`): ambient usage is not bound, everything else is. -/
def review (sha256 : Bytes → Vector UInt8 32) (l : Ledger) : String :=
  let authority : Ledger :=
    { l with domains := l.domains.map fun _ (d : Domain) => { d with observed := 0 } }
  hex (sha256 (toVec authority.toJson)).toList

end Ledger

end LumaOS.Resources
