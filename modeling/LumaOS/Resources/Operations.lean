import LumaOS.Resources.Ledger

/-!
# The ledger's operations

Model of the mutating half of `Ledger` (`resources.rs:346-784`) and of the two places where
`Store` changes a ledger itself: the archive cut (`resources.rs:1042-1140`) and the validation
gate of `Store::transaction` (`resources.rs:1155-1160`).

Each operation is a `Mut Ledger` method, so an operation that writes before it fails would be seen
to. `renew`, `complete_output`, `revoke`, `expire` and `observe` write in place and never run
`validate` afterwards; the others build a copy, validate it and install it.

`random_id` reads `/dev/urandom`: the admission takes its outcome as an argument, so every
theorem holds for whatever bytes the device returns. `Op` and `run` are finite runs of all of
them from any ledger; a failed operation leaves whatever its method left.
-/

namespace LumaOS.Resources

open LumaOS.Base LumaOS.Text

/-- `lease.output_fenced` set for a lease that has an output, as `fence_outputs` does. -/
def Lease.fenceOutput (lease : Lease) : Lease :=
  { lease with outputFenced := lease.outputFenced || lease.outputSha256.isSome }

/-- The loss of authority common to a restart, a revocation and a quarantine: an active lease
starts draining for `reason`. -/
def Lease.drain (reason : String) (lease : Lease) : Lease :=
  if lease.state == .active then { lease with state := .draining, reason := reason } else lease

/-- The capacity, reserve and pressure thresholds of a domain. -/
def Domain.shape (d : Domain) : Nat × Nat × Nat × Nat :=
  (d.capacity, d.reserve, d.pressureEnter, d.pressureExit)

namespace Ledger

/-- `Ledger::fence_outputs`. -/
def fenceOutputs (l : Ledger) : Ledger := { l with leases := l.leases.map Lease.fenceOutput }

/-- `Ledger::index`: the first lease with this token and owner. -/
def index (l : Ledger) (token : Token) (owner : Owner) : Result Nat :=
  okOr (l.leases.findIdx? fun lease => lease.token == token && lease.owner == owner)
    "unknown, forged or foreign resource lease"

/-- `Ledger::assert_active` (`resources.rs:517-530`). -/
def assertActive (l : Ledger) (token : Token) (owner : Owner) (now : Nat) : Result Lease := do
  let i ← l.index token owner
  let lease ← expect l.leases[i]? "index out of bounds"
  refuseIf (token.managerEpoch != l.managerEpoch || lease.state != .active ||
      now ≥ lease.deadlineMs)
    "expired, revoked or stale resource generation"
  lease.reservations.forM fun r => do
    let d ← expect l.domains[r.domain]? "no entry found for key"
    refuseIf d.quarantined "expired, revoked or stale resource generation"
  pure lease

/-! ## Restart -/

/-- One domain of a restart: quarantined where the live shape differs. -/
def restartStep (inventory domains : Table Domain) (e : String × Domain) :
    Result (Table Domain) := do
  let live ← expect inventory[e.1]? "no entry found for key"
  pure (if e.2.shape != live.shape then domains.insert e.1 { e.2 with quarantined := true }
    else domains)

/-- The domain table after a restart: the inventory on first use, afterwards the same domains. -/
def restartDomains (l : Ledger) (inventory : Table Domain) : Result (Table Domain) :=
  if l.domains.isEmpty then .ok inventory
  else do
    refuseIf (l.domains.keys != inventory.keys) "resource inventory migration requires review"
    l.domains.toList.foldlM (restartStep inventory) l.domains

/-- The identities and shapes of an offered inventory. -/
def inventoryValid (inventory : Table Domain) : Result Unit :=
  inventory.toList.forM fun e => do
    refuseIf (!identifier e.1) "invalid domain identity"
    e.2.validate

/-- `Ledger::restart` (`resources.rs:346-394`). -/
def restart (epoch : String) (inventory : Table Domain) : Mut Ledger Unit := do
  let self ← get
  refuseIf (!identifier epoch || epoch == self.managerEpoch || inventory.isEmpty ||
      inventory.size > 16)
    "invalid resource manager restart"
  inventoryValid inventory
  let domains ← self.restartDomains inventory
  let next := { self with
    domains
    managerEpoch := epoch
    leases := self.leases.map (Lease.drain "manager-restart") }.fenceOutputs
  next.validate
  set next

/-! ## Admission -/

/-- The capacity check of one reservation of a fresh admission. -/
def admitStep (l : Ledger) (r : Reservation) : Result Unit := do
  let domain ← expect l.domains[r.domain]? "no entry found for key"
  let charged ← l.charged r.domain
  let required ← checkedAdd charged r.peak "resource reservation overflow"
  refuseIf (domain.quarantined || domain.pressure)
    "resource domain unavailable or insufficient capacity"
  let room ← minus domain.capacity domain.reserve
  refuseIf (required > room) "resource domain unavailable or insufficient capacity"

/-- Every reservation fits its domain. -/
def capacityAvailable (l : Ledger) (reservations : List Reservation) : Result Unit :=
  reservations.forM l.admitStep

/-- The lease a fresh admission pushes. -/
def freshLease (token : Token) (owner : Owner) (request binding : String)
    (reservations : List Reservation) (deadline : Nat) : Lease where
  token := token
  owner := owner
  request := request
  binding := binding
  reservations := reservations
  deadlineMs := deadline
  state := .active
  reason := "admitted"
  outputSha256 := none
  outputDomainEpochs := none
  outputFenced := false

/-- `Ledger::admit` (`resources.rs:396-469`); `random` is what `/dev/urandom` returns. -/
def admitLease (owner : Owner) (request binding : String) (reservations : List Reservation)
    (now deadline : Nat) (random : Result (Vector UInt8 16)) : Mut Ledger Token := do
  let self ← get
  self.validate
  self.reservationsValid reservations
  refuseIf (!identifier request || deadline ≤ now || deadline - now > 30000)
    "invalid resource request or lease duration"
  match self.leases.find? fun l => l.owner == owner && l.request == request with
  | some old => do
    refuseIf (old.binding != binding || old.reservations != reservations)
      "resource idempotency conflict"
    let _ ← self.assertActive old.token owner now
    pure old.token
  | none => do
    refuseIf (self.leases.length ≥ maxRecords) "resource receipt capacity exhausted"
    self.capacityAvailable reservations
    let generation ← checkedAdd self.generation 1 "resource generation space exhausted"
    let id ← random
    let token : Token :=
      { leaseId := hex id.toList, generation, managerEpoch := self.managerEpoch }
    refuseIf (self.leases.any fun l => l.token.leaseId == token.leaseId)
      "resource identifier collision"
    let next := { self with
      generation
      leases := self.leases ++ [freshLease token owner request binding reservations deadline] }
    next.validate
    set next
    pure token

/-- One transferred credit: it must lie within the plan's peak and the retained bytes. -/
def creditStep (reservations : List Reservation) (domains : Table Domain)
    (e : String × Nat) : Result (Table Domain) := do
  let plan ← okOr (reservations.find? fun r => r.domain == e.1) "retained credit outside plan"
  let d ← okOr domains[e.1]? "unknown retained domain"
  refuseIf (e.2 > d.retained || e.2 > plan.peak) "unproven retained allocation credit"
  let retained ← minus d.retained e.2
  pure (domains.insert e.1 { d with retained })

/-- The domain table with every credit debited. -/
def debitCredits (l : Ledger) (reservations : List Reservation) (credits : Table Nat) :
    Result (Table Domain) :=
  credits.toList.foldlM (creditStep reservations) l.domains

/-- `Ledger::admit_reusing_retained` (`resources.rs:471-508`): credits are debited on a copy,
which is installed only if the admission succeeds on it. -/
def admitReusingRetained (owner : Owner) (request binding : String)
    (reservations : List Reservation) (now deadline : Nat) (credits : Table Nat)
    (random : Result (Vector UInt8 16)) : Mut Ledger Token := do
  let self ← get
  if self.leases.any fun l => l.owner == owner && l.request == request then
    admitLease owner request binding reservations now deadline random
  else do
    let domains ← self.debitCredits reservations credits
    let (result, next) :=
      (admitLease owner request binding reservations now deadline random).exec { self with domains }
    let token ← result
    set next
    pure token

/-! ## Renewal, output and loss of authority -/

/-- `Ledger::renew` (`resources.rs:532-546`). -/
def renew (token : Token) (owner : Owner) (now deadline : Nat) : Mut Ledger Unit := do
  let self ← get
  let _ ← self.assertActive token owner now
  refuseIf (deadline ≤ now || deadline - now > 30000) "invalid resource renewal duration"
  let i ← self.index token owner
  modify fun l => { l with
    leases := l.leases.modify i fun lease => { lease with deadlineMs := deadline } }

/-- The current epochs of the reserved domains, collected into a map. -/
def currentEpochs (l : Ledger) (lease : Lease) : Result (Table Nat) := do
  let entries ← lease.reservations.mapM fun r => do
    let d ← expect l.domains[r.domain]? "no entry found for key"
    pure (r.domain, d.epoch)
  pure (Std.ExtTreeMap.ofList entries compare)

/-- `Ledger::complete_output` (`resources.rs:548-581`). -/
def completeOutput (token : Token) (owner : Owner) (now : Nat) (digest : String) :
    Mut Ledger Unit := do
  let self ← get
  self.validate
  let _ ← self.assertActive token owner now
  refuseIf (!isHash digest) "invalid computation output digest"
  let i ← self.index token owner
  let lease ← expect self.leases[i]? "index out of bounds"
  let epochs ← self.currentEpochs lease
  match lease.outputSha256 with
  | some previous =>
    refuseIf (previous != digest || lease.outputDomainEpochs != some epochs)
      "computation output replay or domain provenance differs; recompute in a fresh generation"
  | none =>
    modify fun l => { l with
      leases := l.leases.modify i fun lease =>
        { lease with outputSha256 := some digest, outputDomainEpochs := some epochs } }

/-- What a revocation does to its lease. -/
def revokeLease (reason : String) (lease : Lease) : Lease :=
  if reason != "owner-lost" && lease.outputSha256.isSome then
    { lease.drain reason with outputFenced := true }
  else lease.drain reason

/-- `Ledger::revoke` (`resources.rs:583-600`). -/
def revoke (token : Token) (reason : String) : Mut Ledger Unit := do
  let self ← get
  refuseIf (!identifier reason) "invalid resource revocation reason"
  let i ← okOr (self.leases.findIdx? fun l => l.token == token) "unknown resource lease"
  modify fun l => { l with leases := l.leases.modify i (revokeLease reason) }

/-- What expiry at `now` does to a lease. -/
def expireLease (now : Nat) (lease : Lease) : Lease :=
  if lease.state == .active && lease.deadlineMs ≤ now then
    { lease with
      state := .draining, reason := "expired", outputFenced := lease.outputSha256.isSome }
  else lease

/-- `Ledger::expire` (`resources.rs:602-612`). -/
def expire (now : Nat) : Mut Ledger Unit :=
  modify fun l => { l with leases := l.leases.map (expireLease now) }

/-! ## Observation, quarantine and drainage -/

/-- The hysteresis of `observe`: enter at `pressure_enter`, leave at `pressure_exit`. -/
def observeDomain (d : Domain) (used retained load : Nat) : Domain :=
  { d with
    observed := used
    retained := retained
    pressure :=
      if load ≥ d.pressureEnter then true
      else if load ≤ d.pressureExit then false
      else d.pressure }

/-- `Ledger::observe` (`resources.rs:614-634`). -/
def observe (id : String) (used retained : Nat) : Mut Ledger Unit := do
  let self ← get
  let charged ← self.charged id
  let d ← okOr self.domains[id]? "unknown resource domain"
  let leased ← checkedSub charged d.retained "resource retained accounting underflow"
  let accounted ← checkedAdd leased retained "resource retained accounting overflow"
  let load ← checkedAdd (max used accounted) d.reserve "resource observation overflow"
  modify fun l => { l with domains := l.domains.insert id (observeDomain d used retained load) }

/-- What quarantining `id` does to a lease. -/
def quarantineLease (id reason : String) (lease : Lease) : Lease :=
  if lease.reservations.any fun r => r.domain == id then
    { lease.drain reason with outputFenced := lease.outputSha256.isSome }
  else lease

/-- The domain table with `id` quarantined; its epoch advances on entry only. -/
def quarantineDomains (l : Ledger) (id : String) (d : Domain) : Result (Table Domain) :=
  if d.quarantined then .ok l.domains
  else do
    let epoch ← checkedAdd d.epoch 1 "resource domain epoch exhausted"
    pure (l.domains.insert id { d with epoch, quarantined := true })

/-- `Ledger::quarantine` (`resources.rs:636-663`). -/
def quarantine (id reason : String) : Mut Ledger Unit := do
  let self ← get
  refuseIf (!identifier reason) "invalid resource quarantine reason"
  let d ← okOr self.domains[id]? "unknown resource domain"
  let domains ← self.quarantineDomains id d
  let next := { self with domains, leases := self.leases.map (quarantineLease id reason) }
  next.validate
  set next

/-- One drained domain's observed remainder. -/
def drainStep (domains : Table Domain) (e : String × Nat) : Result (Table Domain) := do
  let d ← okOr domains[e.1]? "unknown drained domain"
  pure (domains.insert e.1 { d with retained := e.2 })

/-- The domain table with every drained remainder recorded. -/
def drainDomains (l : Ledger) (retained : Table Nat) : Result (Table Domain) :=
  retained.toList.foldlM drainStep l.domains

/-- `Ledger::finish_draining` (`resources.rs:667-698`). -/
def finishDraining (token : Token) (retained : Table Nat) : Mut Ledger Unit := do
  let self ← get
  let i ← okOr (self.leases.findIdx? fun l => l.token == token) "unknown drained lease"
  let lease ← expect self.leases[i]? "index out of bounds"
  refuseIf (lease.state != .draining) "lease is not draining"
  refuseIf (retained.keys != lease.reservations.map (·.domain))
    "incomplete resource drainage observation"
  let domains ← self.drainDomains retained
  let next := { self with
    domains
    leases := self.leases.modify i fun lease =>
      { lease with state := .released, reason := "fenced-and-observed" } }
  next.validate
  set next

/-! ## Reviewed epoch cuts -/

/-- One domain of a cleared quarantine: the live shape, the next epoch, the old retained bytes. -/
def clearStep (domains : Table Domain) (e : String × Domain) : Result (Table Domain) := do
  e.2.validate
  let old ← expect domains[e.1]? "no entry found for key"
  let epoch ← checkedAdd old.epoch 1 "resource epoch exhausted"
  pure (domains.insert e.1 { e.2 with epoch, retained := old.retained })

/-- The domain table of a cleared quarantine. -/
def clearDomains (l : Ledger) (inventory : Table Domain) : Result (Table Domain) :=
  inventory.toList.foldlM clearStep l.domains

/-- `Ledger::clear_quarantine` (`resources.rs:700-722`). -/
def clearQuarantine (sha256 : Bytes → Vector UInt8 32) (review : String)
    (inventory : Table Domain) : Mut Ledger Unit := do
  let self ← get
  refuseIf (self.review sha256 != review || self.leases.any (fun l => l.state != .released) ||
      self.domains.keys != inventory.keys)
    "stale resource review or incomplete drainage"
  let domains ← self.clearDomains inventory
  let next := { self with domains }.fenceOutputs
  next.validate
  set next

/-- One domain of a migrated inventory: a domain that existed keeps its charge and its fences and
advances its epoch. -/
def migrateStep (old : Table Domain) (domains : Table Domain) (e : String × Domain) :
    Result (Table Domain) :=
  match old[e.1]? with
  | none => .ok domains
  | some o => do
    let epoch ← checkedAdd o.epoch 1 "migration epoch exhausted"
    pure (domains.insert e.1 { e.2 with
      epoch
      retained := o.retained
      quarantined := o.quarantined
      pressure := o.pressure
      observed := o.observed })

/-- The domain table of a migrated inventory. -/
def migrateDomains (l : Ledger) (inventory : Table Domain) : Result (Table Domain) :=
  inventory.toList.foldlM (migrateStep l.domains) inventory

/-- `Ledger::migrate_inventory` (`resources.rs:736-776`). -/
def migrateInventory (sha256 : Bytes → Vector UInt8 32) (review epoch : String)
    (inventory : Table Domain) : Mut Ledger Unit := do
  let self ← get
  self.validate
  refuseIf (self.review sha256 != review || self.leases.any (fun l => l.state != .released) ||
      inventory.isEmpty || inventory.size > 16 || !identifier epoch ||
      epoch == self.managerEpoch || self.domains.keys.any (fun id => !inventory.contains id))
    "stale migration review, live allocation or discarded domain"
  let domains ← self.migrateDomains inventory
  let next := { self with domains, managerEpoch := epoch }.fenceOutputs
  next.validate
  set next

/-- The ledger cut of `Store::archive` (`resources.rs:1042-1052`, `1133-1140`); `digest` is the
SHA-256 of the durable ledger bytes. -/
def archive (sha256 : Bytes → Vector UInt8 32) (review epoch : String)
    (digest : Vector UInt8 32) : Mut Ledger Unit := do
  let self ← get
  refuseIf (self.review sha256 != review || self.leases.isEmpty ||
      self.leases.any (fun l => l.state != .released) || self.archives.length ≥ maxArchives ||
      !identifier epoch || epoch == self.managerEpoch)
    "stale archive review, incomplete drainage or exhausted retention"
  modify fun l => { l with
    archives := l.archives ++
      [{ throughGeneration := l.generation, sha256 := hex digest.toList }]
    leases := []
    managerEpoch := epoch }

/-- `Store::transaction` on the ledger value: the operation works on a copy, which is kept only
if the operation succeeds and the copy validates. -/
def transaction {α : Type} (operation : Mut Ledger α) : Mut Ledger α := do
  let self ← get
  let (result, next) := operation.exec self
  let value ← result
  next.validate
  set next
  pure value

/-! ## Runs -/

/-- The operations a run can apply, with any arguments. -/
inductive Op where
  | restart (epoch : String) (inventory : Table Domain)
  | admitLease (owner : Owner) (request binding : String) (reservations : List Reservation)
      (now deadline : Nat) (random : Result (Vector UInt8 16))
  | admitReusingRetained (owner : Owner) (request binding : String)
      (reservations : List Reservation) (now deadline : Nat) (credits : Table Nat)
      (random : Result (Vector UInt8 16))
  | renew (token : Token) (owner : Owner) (now deadline : Nat)
  | completeOutput (token : Token) (owner : Owner) (now : Nat) (digest : String)
  | revoke (token : Token) (reason : String)
  | expire (now : Nat)
  | observe (id : String) (used retained : Nat)
  | quarantine (id reason : String)
  | finishDraining (token : Token) (retained : Table Nat)
  | clearQuarantine (review : String) (inventory : Table Domain)
  | migrateInventory (review epoch : String) (inventory : Table Domain)
  | archive (review epoch : String) (digest : Vector UInt8 32)

/-- The method of an operation; an admission returns its token. -/
def Op.method (sha256 : Bytes → Vector UInt8 32) : Op → Mut Ledger (Option Token)
  | .restart epoch inventory => do Ledger.restart epoch inventory; pure none
  | .admitLease owner request binding reservations now deadline random =>
    some <$> Ledger.admitLease owner request binding reservations now deadline random
  | .admitReusingRetained owner request binding reservations now deadline credits random =>
    some <$> Ledger.admitReusingRetained owner request binding reservations now deadline credits
      random
  | .renew token owner now deadline => do Ledger.renew token owner now deadline; pure none
  | .completeOutput token owner now digest => do
    Ledger.completeOutput token owner now digest; pure none
  | .revoke token reason => do Ledger.revoke token reason; pure none
  | .expire now => do Ledger.expire now; pure none
  | .observe id used retained => do transaction (Ledger.observe id used retained); pure none
  | .quarantine id reason => do Ledger.quarantine id reason; pure none
  | .finishDraining token retained => do Ledger.finishDraining token retained; pure none
  | .clearQuarantine review inventory => do
    Ledger.clearQuarantine sha256 review inventory; pure none
  | .migrateInventory review epoch inventory => do
    Ledger.migrateInventory sha256 review epoch inventory; pure none
  | .archive review epoch digest => do Ledger.archive sha256 review epoch digest; pure none

/-- The ledger an operation leaves, whether it succeeds or not. -/
def step (sha256 : Bytes → Vector UInt8 32) (l : Ledger) (op : Op) : Ledger :=
  ((op.method sha256).exec l).2

/-- A finite run. -/
def run (sha256 : Bytes → Vector UInt8 32) (l : Ledger) (ops : List Op) : Ledger :=
  ops.foldl (step sha256) l

end Ledger

end LumaOS.Resources
