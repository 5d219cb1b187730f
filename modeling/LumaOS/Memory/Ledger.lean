import LumaOS.Memory.Domain

/-!
# The resource ledger

`ResourceLedger` of `resources.py`. The dictionaries `_domains` and `_leases` keep insertion order,
so each is a list looked up by its key. A method that raises keeps the writes it made
(`Base.Proc`): `admit` has taken a generation when the ID factory fails, and `update_telemetry` has
stored the sample when the quarantine epoch is used up. Every method runs under the ledger's lock,
so a run is a list of whole calls (`step`).
-/

namespace LumaOS.Memory

open LumaOS.Base

/-- `LeaseStatus`. -/
inductive LeaseStatus where
  | active
  | released
  | revoked
deriving DecidableEq, Repr

/-- `ResourceLease`. -/
structure ResourceLease where
  leaseId : String
  generation : Nat
  ownerId : String
  idempotencyKey : String
  reservations : List MemoryReservation
deriving DecidableEq, Repr

namespace ResourceLease

/-- `ResourceLease.__post_init__`. -/
def postInit (l : ResourceLease) : Except Fault Unit := do
  let _ ← identifier "lease_id" (.text l.leaseId)
  let generation ← checkedU64 "generation" (.int l.generation)
  raiseIf (generation == 0) (invalid "generation must be greater than zero")
  let _ ← identifier "owner_id" (.text l.ownerId)
  let _ ← identifier "idempotency_key" (.text l.idempotencyKey)
  raiseIf l.reservations.isEmpty (invalid "a lease must contain at least one reservation")
  raiseIf (l.reservations.insertionSort MemoryReservation.le != l.reservations)
    (invalid "lease reservations must be in canonical domain order")
  raiseIf (!decide (l.reservations.map (·.domainId)).Nodup)
    (invalid "lease reservations must have unique domains")
  let _ ← checkedSumBytes (l.reservations.map (·.bytes))

/-- `ResourceLease.bytes_for`. -/
def bytesFor (l : ResourceLease) (domainId : String) : Nat :=
  match l.reservations.find? fun r => r.domainId == domainId with
  | some r => r.bytes
  | none => 0

/-- The lease holds a reservation in the domain. -/
def touches (l : ResourceLease) (domainId : String) : Bool :=
  l.reservations.any fun r => r.domainId == domainId

end ResourceLease

/-- `_LeaseRecord`. -/
structure LeaseRecord where
  lease : ResourceLease
  status : LeaseStatus := .active
  terminalReason : Option String := none
deriving DecidableEq, Repr

/-- `ResourceLedger`. `idFactory n` is what the `n`-th call of the ID factory returns, `none` when it
raises, and `drawn` counts the calls so far. -/
structure Ledger where
  domains : List DomainRecord
  leases : List LeaseRecord := []
  idempotency : List ((String × String) × List MemoryReservation × String) := []
  nextGeneration : Option Nat
  idFactory : Nat → Option Arg
  drawn : Nat := 0

namespace Ledger

/-- The loop over the domains in `ResourceLedger.__init__`. -/
def records (acc : List DomainRecord) : List MemoryDomain → Except Fault (List DomainRecord)
  | [] => .ok acc
  | domain :: domains => do
    raiseIf (acc.any fun d => d.id == domain.domainId)
      (invalid s!"duplicate memory domain: {domain.domainId}")
    records (acc ++ [{ domain }]) domains

/-- `ResourceLedger.__init__`. -/
def init (domains : List MemoryDomain) (idFactory : Nat → Option Arg) (initialGeneration : Arg) :
    Except Fault Ledger := do
  let records ← records [] domains
  raiseIf records.isEmpty (invalid "at least one memory domain is required")
  let generation ← checkedU64 "initial_generation" initialGeneration
  raiseIf (generation == 0) (invalid "initial_generation must be greater than zero")
  pure { domains := records, nextGeneration := some generation, idFactory }

/-! ## Reading and writing the dictionaries -/

/-- `self._domains.get(domain_id)`. -/
def domain? (s : Ledger) (domainId : String) : Option DomainRecord :=
  s.domains.find? fun d => d.id == domainId

/-- `self._leases.get(lease_id)`. -/
def lease? (s : Ledger) (leaseId : String) : Option LeaseRecord :=
  s.leases.find? fun r => r.lease.leaseId == leaseId

/-- An assignment to attributes of `self._domains[domain_id]`. -/
def writeDomain (domainId : String) (f : DomainRecord → DomainRecord) (s : Ledger) : Ledger :=
  { s with domains := s.domains.map fun d => if d.id = domainId then f d else d }

/-- An assignment to attributes of `self._leases[lease_id]`. -/
def writeLease (leaseId : String) (f : LeaseRecord → LeaseRecord) (s : Ledger) : Ledger :=
  { s with leases := s.leases.map fun r => if r.lease.leaseId = leaseId then f r else r }

/-- `dictionary[key]`. -/
def item {α : Type} (key : String) : Option α → Except Fault α
  | some a => .ok a
  | none => .error (fault .lookup key)

/-- `record = table.get(key); if record is None: raise fault`. -/
def found {α : Type} (fault : Fault) : Option α → Except Fault α
  | some a => .ok a
  | none => .error fault

/-- `_recompute_state_locked(self._domains[domain_id])`. -/
def recompute (domainId : String) : Proc Fault Ledger DomainRecord := do
  let s ← get
  let record ← item domainId (s.domain? domainId)
  let record ← record.recomputed
  modify (writeDomain domainId fun _ => record)
  pure record

/-! ## Admission -/

/-- What a caller passes as `reservations`; an item of an iterable that is no `MemoryReservation` is
`none`. -/
inductive Reservations where
  | mapping (entries : List (Arg × Arg))
  | items (listing : List (Option MemoryReservation))
  | other
deriving DecidableEq, Repr

/-- The items as they are listed. -/
def Reservations.listed : Reservations → Except Fault (List MemoryReservation)
  | .mapping entries => entries.mapM fun e => MemoryReservation.postInit e.1 e.2
  | .items listing =>
    match listing.mapM fun item => item with
    | some known => .ok known
    | none => .error (invalid "reservation iterable must contain MemoryReservation instances")
  | .other =>
    .error (invalid "reservations must be a mapping or iterable of MemoryReservation")

/-- `_canonical_reservations`. -/
def canonicalReservations (reservations : Reservations) :
    Except Fault (List MemoryReservation) := do
  let items ← reservations.listed
  raiseIf items.isEmpty (invalid "at least one reservation is required")
  let canonical := items.insertionSort MemoryReservation.le
  raiseIf (!decide (canonical.map (·.domainId)).Nodup)
    (invalid "reservations must have unique domains")
  let _ ← checkedSumBytes (canonical.map (·.bytes))
  pure canonical

/-- The body of the loop of `admit` that computes `prospective`. -/
def prospect (r : MemoryReservation) : Proc Fault Ledger (String × Nat) := do
  let s ← get
  let _ ← found (denied "reservation refers to an unknown memory domain" r.domainId)
    (s.domain? r.domainId)
  let record ← recompute r.domainId
  raiseIf (record.state == .quarantined) (denied "memory domain is quarantined" r.domainId)
  raiseIf (record.state == .pressure) (denied "memory domain is under pressure" r.domainId)
  let newAllocated ← checkedAddBytes record.allocatedBytes r.bytes
  raiseIf (newAllocated > record.domain.allocatableBytes)
    (denied "reservation exceeds the memory domain budget" r.domainId)
  pure (r.domainId, newAllocated)

/-- `_take_generation_locked`. -/
def takeGeneration : Proc Fault Ledger Nat := do
  let s ← get
  let generation ← found (fault .byteArithmetic "lease generation space is exhausted")
    s.nextGeneration
  set { s with nextGeneration := if generation = maxU64 then none else some (generation + 1) }
  pure generation

/-- One call of the ID factory, and the check of what it returns. -/
def drawId : Proc Fault Ledger String := do
  let s ← get
  set { s with drawn := s.drawn + 1 }
  let value ← found (fault .foreign "id_factory") (s.idFactory s.drawn)
  identifier "generated lease_id" value

/-- `_new_lease_id_locked`: `tries` counts down `range(32)`. -/
def newLeaseId : (tries : Nat) → Proc Fault Ledger String
  | 0 => throw (fault .ledger "lease ID factory repeatedly produced collisions")
  | tries + 1 => do
    let candidate ← drawId
    let s ← get
    if s.lease? candidate = none then pure candidate else newLeaseId tries

/-- The writes of the allocated bytes of `admit` and `_terminalize_locked`. -/
def writeAllocated (values : List (String × Nat)) (s : Ledger) : Ledger :=
  values.foldl (fun s v => s.writeDomain v.1 fun d => { d with allocatedBytes := v.2 }) s

/-- `self._leases[lease_id] = _LeaseRecord(lease=lease)` and the idempotency entry. -/
def addLease (lease : ResourceLease) (s : Ledger) : Ledger :=
  { s with
    leases := s.leases ++ [{ lease }]
    idempotency := s.idempotency ++
      [((lease.ownerId, lease.idempotencyKey), lease.reservations, lease.leaseId)] }

/-- `admit` for a key that is not known yet. -/
def admitNew (ownerId idempotencyKey : String) (canonical : List MemoryReservation) :
    Proc Fault Ledger ResourceLease := do
  let prospective ← canonical.mapM prospect
  let generation ← takeGeneration
  let leaseId ← newLeaseId 32
  let lease : ResourceLease :=
    { leaseId, generation, ownerId, idempotencyKey, reservations := canonical }
  lease.postInit
  modify (writeAllocated prospective)
  modify (addLease lease)
  prospective.forM fun v => do let _ ← recompute v.1
  pure lease

/-- The entry of a key in `_idempotency`. -/
def replay? (s : Ledger) (key : String × String) : Option (List MemoryReservation × String) :=
  s.idempotency.lookup key

/-- `admit` for a key that is known. -/
def admitReplay (canonical : List MemoryReservation) (entry : List MemoryReservation × String) :
    Proc Fault Ledger ResourceLease := do
  raiseIf (entry.1 != canonical)
    (fault .idempotencyConflict "idempotency key was already used with different reservations")
  let s ← get
  let record ← item entry.2 (s.lease? entry.2)
  pure record.lease

/-- `admit`. -/
def admitLease (ownerId : Arg) (reservations : Reservations) (idempotencyKey : Arg) :
    Proc Fault Ledger ResourceLease := do
  let ownerId ← identifier "owner_id" ownerId
  let idempotencyKey ← identifier "idempotency_key" idempotencyKey
  let canonical ← canonicalReservations reservations
  let s ← get
  match s.replay? (ownerId, idempotencyKey) with
  | some entry => admitReplay canonical entry
  | none => admitNew ownerId idempotencyKey canonical

/-! ## Release and quarantine -/

/-- What a caller passes as `lease`. -/
inductive LeaseArg where
  | lease (lease : ResourceLease)
  | leaseId (leaseId : String)
  | other
deriving DecidableEq, Repr

/-- `value == n` for an integer `n`; `True` is 1. -/
def Arg.equals (n : Nat) : Arg → Bool
  | .int value => value == n
  | .bool value => value.toNat == n
  | _ => false

/-- The ID and the generation that `_lookup_locked` looks for. -/
def wanted (lease : LeaseArg) (generation : Arg) : Except Fault (String × Nat) :=
  match lease with
  | .lease l => do
    raiseIf (generation != .missing && !Arg.equals l.generation generation)
      (fault .staleLease "conflicting lease generations were supplied")
    pure (l.leaseId, l.generation)
  | .leaseId leaseId => do
    let leaseId ← identifier "lease_id" (.text leaseId)
    raiseIf (generation == .missing) (invalid "generation is required with a lease ID")
    let generation ← checkedU64 "generation" generation
    pure (leaseId, generation)
  | .other => .error (invalid "lease must be a ResourceLease or lease ID")

/-- `supplied is not None and supplied != record.lease`. -/
def LeaseArg.differs (l : ResourceLease) : LeaseArg → Bool
  | .lease supplied => supplied != l
  | _ => false

/-- The owner check of `_lookup_locked`. -/
def checkOwner (record : LeaseRecord) : Arg → Except Fault Unit
  | .missing => .ok ()
  | ownerId => do
    let ownerId ← identifier "owner_id" ownerId
    raiseIf (ownerId != record.lease.ownerId)
      (fault .leaseOwnership "lease belongs to another owner")

/-- `_lookup_locked`. -/
def lookup (s : Ledger) (lease : LeaseArg) (generation ownerId : Arg) :
    Except Fault LeaseRecord := do
  let key ← wanted lease generation
  let stale := fault .staleLease "lease ID or generation is stale"
  let record ← found stale (s.lease? key.1)
  raiseIf (record.lease.generation != key.2) stale
  raiseIf (lease.differs record.lease)
    (fault .staleLease "lease token does not match the admitted lease")
  checkOwner record ownerId
  pure record

/-- The body of the loop of `_terminalize_locked` that computes `new_values`. -/
def newValue (r : MemoryReservation) : Proc Fault Ledger (String × Nat) := do
  let s ← get
  let domain ← item r.domainId (s.domain? r.domainId)
  let value ← checkedSubBytes domain.allocatedBytes r.bytes
  pure (r.domainId, value)

def inactive : Fault := fault .staleLease "lease is no longer active"

/-- `_terminalize_locked(self._leases[lease_id], ..)`. -/
def terminalize (leaseId : String) (status : LeaseStatus) (reason : String) :
    Proc Fault Ledger Unit := do
  let s ← get
  let record ← item leaseId (s.lease? leaseId)
  raiseIf (record.status != .active) inactive
  let newValues ← record.lease.reservations.mapM newValue
  modify (writeAllocated newValues)
  modify (writeLease leaseId fun r => { r with status, terminalReason := some reason })
  newValues.forM fun v => do let _ ← recompute v.1

/-- `release`. -/
def release (lease : LeaseArg) (generation ownerId : Arg) : Proc Fault Ledger Bool := do
  let s ← get
  let record ← s.lookup lease generation ownerId
  if record.status = .released then pure false
  else do
    raiseIf (record.status != .active) inactive
    terminalize record.lease.leaseId .released "released"
    pure true

/-- The leases that `_quarantine_locked` revokes. -/
def affected (s : Ledger) (domainId : String) : List LeaseRecord :=
  s.leases.filter fun r => r.status == .active && r.lease.touches domainId

/-- The writes to the target of `_quarantine_locked`. -/
def quarantined (reason : String) (d : DomainRecord) : DomainRecord :=
  { d with state := .quarantined, stateReason := some reason }

/-- `_quarantine_locked(self._domains[domain_id], reason)`. -/
def quarantineLocked (domainId reason : String) : Proc Fault Ledger (List ResourceLease) := do
  let s ← get
  let target ← item domainId (s.domain? domainId)
  if target.state = .quarantined then pure []
  else do
    raiseIf (target.quarantineEpoch == maxU64)
      (fault .byteArithmetic "quarantine epoch space is exhausted")
    modify (writeDomain domainId fun d =>
      quarantined reason { d with quarantineEpoch := d.quarantineEpoch + 1 })
    let affected := s.affected domainId
    affected.forM fun r =>
      terminalize r.lease.leaseId .revoked s!"domain {domainId} quarantined: {reason}"
    modify (writeDomain domainId (quarantined reason))
    pure (affected.map (·.lease))

def unknownDomain (domainId : String) : Fault := invalid s!"unknown memory domain: {domainId}"

/-- `quarantine`. -/
def quarantine (domainId reason : Arg) : Proc Fault Ledger (List ResourceLease) := do
  let domainId ← identifier "domain_id" domainId
  let reason ← identifier "reason" reason
  let s ← get
  let _ ← found (unknownDomain domainId) (s.domain? domainId)
  quarantineLocked domainId reason

/-- The snapshot of the record a method leaves. -/
def snapshotOf (domainId : String) : Proc Fault Ledger DomainRecord.Snapshot := do
  let s ← get
  let record ← item domainId (s.domain? domainId)
  pure record.snapshot

/-- `clear_quarantine`. -/
def clearQuarantine (domainId expectedEpoch : Arg) : Proc Fault Ledger DomainRecord.Snapshot := do
  let domainId ← identifier "domain_id" domainId
  let expectedEpoch ← checkedU64 "expected_epoch" expectedEpoch
  let s ← get
  let record ← found (unknownDomain domainId) (s.domain? domainId)
  raiseIf (record.state != .quarantined) (fault .ledger "memory domain is not quarantined")
  raiseIf (expectedEpoch != record.quarantineEpoch)
    (fault .staleLease "quarantine epoch does not match")
  modify (writeDomain domainId fun d => { d with state := .healthy, stateReason := none })
  let _ ← recompute domainId
  snapshotOf domainId

/-! ## Telemetry and snapshots -/

/-- The sample is not older than the last one, and not another one of the same sequence. -/
def checkSequence (previous : Option TelemetrySample) (sample : TelemetrySample) :
    Except Fault Unit :=
  match previous with
  | none => .ok ()
  | some previous => do
    raiseIf (sample.sequence < previous.sequence)
      (fault .staleTelemetry "telemetry sequence moved backwards")
    raiseIf (sample.sequence == previous.sequence && sample != previous)
      (fault .staleTelemetry "telemetry sequence was reused with different data")

/-- What `update_telemetry` does about the health of the domain. -/
def assess (domain : MemoryDomain) (sample : TelemetrySample) : Proc Fault Ledger Unit :=
  if sample.totalBytes < domain.budgetBytes then do
    let _ ← quarantineLocked sample.domainId
      "telemetry capacity is below the configured memory-domain budget"
  else if sample.deviceError then do
    let _ ← quarantineLocked sample.domainId "telemetry reported a device error"
  else do
    let _ ← recompute sample.domainId

/-- `update_telemetry`; an argument that is no `TelemetrySample` is `none`. -/
def updateTelemetry (sample : Option TelemetrySample) :
    Proc Fault Ledger DomainRecord.Snapshot := do
  let sample ← found (invalid "sample must be a TelemetrySample") sample
  let s ← get
  let record ← found (unknownDomain sample.domainId) (s.domain? sample.domainId)
  checkSequence record.lastTelemetry sample
  if record.lastTelemetry = some sample then snapshotOf sample.domainId
  else do
    modify (writeDomain sample.domainId fun d =>
      { d with lastTelemetry := some sample, observedUsedBytes := some sample.usedBytes })
    assess record.domain sample
    snapshotOf sample.domainId

/-- `domain_snapshot`. -/
def domainSnapshot (domainId : Arg) : Proc Fault Ledger DomainRecord.Snapshot := do
  let domainId ← identifier "domain_id" domainId
  let s ← get
  let _ ← found (unknownDomain domainId) (s.domain? domainId)
  let record ← recompute domainId
  pure record.snapshot

/-- `snapshots`, with `domain_ids` in order. -/
def snapshots : Proc Fault Ledger (List (String × DomainRecord.Snapshot)) := do
  let s ← get
  let domainIds := (s.domains.map DomainRecord.id).insertionSort (· ≤ ·)
  domainIds.mapM fun domainId => do
    let record ← recompute domainId
    pure (domainId, record.snapshot)

/-! ## Calls -/

/-- A call of one of the methods that write. -/
inductive Op where
  | admitLease (ownerId : Arg) (reservations : Reservations) (idempotencyKey : Arg)
  | release (lease : LeaseArg) (generation ownerId : Arg)
  | quarantine (domainId reason : Arg)
  | clearQuarantine (domainId expectedEpoch : Arg)
  | updateTelemetry (sample : Option TelemetrySample)
  | domainSnapshot (domainId : Arg)
  | snapshots

/-- What a call returns. -/
inductive Reply where
  | lease (lease : ResourceLease)
  | released (changed : Bool)
  | revoked (leases : List ResourceLease)
  | snapshot (snapshot : DomainRecord.Snapshot)
  | snapshots (snapshots : List (String × DomainRecord.Snapshot))
deriving DecidableEq, Repr

/-- The call as a method. -/
def call : Op → Proc Fault Ledger Reply
  | .admitLease ownerId reservations idempotencyKey =>
    Reply.lease <$> admitLease ownerId reservations idempotencyKey
  | .release lease generation ownerId => Reply.released <$> release lease generation ownerId
  | .quarantine domainId reason => Reply.revoked <$> quarantine domainId reason
  | .clearQuarantine domainId expectedEpoch =>
    Reply.snapshot <$> clearQuarantine domainId expectedEpoch
  | .updateTelemetry sample => Reply.snapshot <$> updateTelemetry sample
  | .domainSnapshot domainId => Reply.snapshot <$> domainSnapshot domainId
  | .snapshots => Reply.snapshots <$> snapshots

def step (s : Ledger) (op : Op) : Except Fault Reply × Ledger := Proc.exec (call op) s

end Ledger

end LumaOS.Memory
