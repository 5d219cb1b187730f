import LumaOS.Resources.Codec
import LumaOS.Resources.Effect

/-!
# The store's session over its durable ledger

Model of `Store::open`, `Store::read` and `Store::transaction` (`resources.rs:840-905` and
`:1149-1241`) with `verify_exclusion` and `durable_bytes` (`exclusion.rs:27-63`). The live ledger is
the file overlaid with two maps of the session: what was observed of each domain, and the deadlines
that active leases were renewed to. A transaction writes the file only when the review digest says
that more than telemetry changed, and never with a deadline later than the admission's.

The comparisons of the directory and its lock, the checkpoint's word on the pair, `fsync` and the
publication are answers of the file system (`Answers`). The archive inventory only decides whether
`open` goes through, and is a parameter of it. The text of a parse error is `serde_json`'s own.
-/

namespace LumaOS.Resources

open LumaOS.Base LumaOS.Text LumaOS.Json

/-- `MAX_BYTES`. -/
def maxBytes : Nat := 8 * 1024 * 1024

/-- What the file system answers one call, by call site. -/
structure Answers where
  /-- The `i`-th comparison of the directory and its lock. -/
  lock : Nat → Result Unit
  /-- The `i`-th `verify_pair`. -/
  pair : Nat → Result Unit
  /-- `sync_all` of the file and the directory. -/
  synchronize : Result Unit
  /-- What `publish` returns, and what `ledger.json` holds after it. -/
  publish : Bytes → Result Unit × Bytes

/-- Answers that find everything in place. -/
def Answers.Fair (a : Answers) : Prop := ∀ i, a.lock i = .ok () ∧ a.pair i = .ok ()

/-- `Store`, with the bytes of its `ledger.json`. -/
structure Store where
  file : Bytes
  authorityLost : Bool
  publishedSha256 : String
  poisoned : Bool
  observations : Table Nat
  renewalDeadlines : Table Nat

namespace Store

variable (sha256 : Bytes → Vector UInt8 32)

/-- `Store::verify_exclusion`; a failure is remembered. -/
def verifyExclusion (answer : Result Unit) : Mut Store Unit := do
  let s ← get
  refuseIf s.authorityLost "resource authority exclusion lost; preserve state and restart"
  Mut.onError (fun s => { s with authorityLost := true }) (liftM answer)

/-- `Store::durable_bytes`. -/
def durableBytes (a : Answers) (i : Nat) : Mut Store Bytes := do
  verifyExclusion (a.lock i)
  Mut.onError (fun s => { s with authorityLost := true }) do
    let s ← get
    refuseIf (s.file.length > maxBytes) "unsafe/oversized private Admin state"
    refuseIf (hex (sha256 s.file).toList != s.publishedSha256)
      "resource ledger changed outside this writer; preserve state"
    liftM (a.pair i)
    verifyExclusion (a.lock (i + 1))
    pure s.file

/-- The observations over the domains of the file. -/
def observed (s : Store) (domains : Table Domain) : Result (Table Domain) :=
  s.observations.toList.foldlM (fun domains e => do
    let d ← okOr domains[e.1]? "telemetry inventory changed"
    pure (domains.insert e.1 { d with observed := e.2 })) domains

/-- The renewed deadline of an active lease. -/
def renewed (s : Store) (x : Lease) : Lease :=
  if x.state == .active then
    match s.renewalDeadlines[x.token.leaseId]? with
    | some deadline => { x with deadlineMs := deadline }
    | none => x
  else x

/-- `Store::read`, whose first comparison is the `i`-th. -/
def read (a : Answers) (i : Nat) : Mut Store Ledger := do
  let s ← get
  refuseIf s.poisoned "resource publication uncertain; manager restart required"
  let bytes ← durableBytes sha256 a i
  let ledger ← liftM (okOr (decodeAs Ledger.ofJson bytes)
    "malformed resource ledger; preserve state")
  refuseIf (toVec ledger.toJson != bytes) "noncanonical resource ledger; preserve state"
  ledger.validate
  let domains ← liftM (s.observed ledger.domains)
  let shown := { ledger with domains, leases := ledger.leases.map s.renewed }
  verifyExclusion (a.lock (i + 2))
  pure shown

/-- The store `open` builds over the file. -/
def fresh (file : Bytes) : Store where
  file := file
  authorityLost := false
  publishedSha256 := hex (sha256 file).toList
  poisoned := false
  observations := ∅
  renewalDeadlines := ∅

/-- `Store::open`. -/
def openStore (file : Bytes) (a : Answers) (verifyArchives : Ledger → Result Unit) :
    Result Store := do
  refuseIf (file.length > maxBytes) "unsafe/oversized private Admin state"
  let ledger ← ((read sha256 a 0).exec (fresh sha256 file)).1
  verifyArchives ledger
  pure (fresh sha256 file)

/-! ## Transactions -/

/-- The ledger as it is written: a lease of the file keeps the deadline it has there. -/
def admissions (before next : Ledger) : Ledger :=
  { next with leases := next.leases.map fun x =>
      match before.leases.find? fun old => old.token == x.token with
      | some old => { x with deadlineMs := old.deadlineMs }
      | none => x }

/-- What the session remembers of the ledger it acknowledged. -/
def remember (next : Ledger) (s : Store) : Store :=
  { s with
    observations := next.domains.map fun _ (d : Domain) => d.observed
    renewalDeadlines := (next.leases.filter fun x => x.state == .active).foldl
      (fun t x => t.insert x.token.leaseId x.deadlineMs) ∅ }

/-- The bytes are the file's already: `synchronized` of `Store::transaction`. -/
def synchronize (acknowledge : Bool) (a : Answers) : Mut Store Unit := do
  verifyExclusion (a.lock 5)
  if acknowledge then liftM a.synchronize
  let _ ← durableBytes sha256 a 6

/-- `published` of `Store::transaction`. -/
def publish (bytes : Bytes) (a : Answers) : Mut Store Unit := do
  verifyExclusion (a.lock 5)
  modify fun s => { s with file := (a.publish bytes).2 }
  liftM (a.publish bytes).1
  verifyExclusion (a.lock 6)
  let s ← get
  refuseIf (s.file.length > maxBytes) "unsafe/oversized private Admin state"
  refuseIf (s.file != bytes) "resource publication readback differs; preserve state"
  verifyExclusion (a.lock 7)

/-- `Store::transaction`. -/
def transaction {α : Type} (operation : Mut Ledger α) (acknowledge : Bool) (a : Answers) :
    Mut Store α := do
  let ledger ← read sha256 a 0
  let (result, next) := operation.exec ledger
  let result ← liftM result
  next.validate
  let bytes ← durableBytes sha256 a 3
  let before ← liftM (okOr (decodeAs Ledger.ofJson bytes) "malformed resource ledger")
  let durableNext := admissions before next
  let bytes := toVec durableNext.toJson
  refuseIf (bytes.length > maxBytes) "resource journal capacity exhausted"
  if before.review sha256 == durableNext.review sha256 then
    Mut.onError (fun s => { s with poisoned := true }) (synchronize sha256 acknowledge a)
    modify (remember next)
    pure result
  else
    Mut.onError (fun s => { s with poisoned := true }) (publish bytes a)
    modify fun s => { s with publishedSha256 := hex (sha256 bytes).toList }
    modify (remember next)
    pure result

end Store

/-! ## What a session has acknowledged -/

/-- A ledger without its telemetry: what `review` binds. -/
def Ledger.authority (l : Ledger) : Ledger :=
  { l with domains := l.domains.map fun _ (d : Domain) => { d with observed := 0 } }

/-- The ledgers of a session: the one it opened, and what each transaction's operation produced,
the last one first. -/
structure History where
  opened : Ledger
  produced : List Ledger

namespace History

/-- The deadline a ledger has for a token. -/
def deadlineOf (l : Ledger) (token : Token) : Nat :=
  ((l.leases.find? fun x => x.token == token).map Lease.deadlineMs).getD 0

/-- The ledger acknowledged last. -/
def last (h : History) : Ledger := h.produced.headD h.opened

/-- The deadline a lease was admitted with: the one in the ledger it came in with. -/
def admittedFrom (opened : Ledger) : List Ledger → Token → Nat
  | [], token => deadlineOf opened token
  | l :: earlier, token =>
    if (earlier.headD opened).leases.any fun x => x.token == token then
      admittedFrom opened earlier token
    else deadlineOf l token

def admitted (h : History) : Token → Nat := admittedFrom h.opened h.produced

/-- A lease with the deadline it was admitted with. -/
def dated (h : History) (x : Lease) : Lease := { x with deadlineMs := h.admitted x.token }

/-- The last ledger, every lease with the deadline it was admitted with. -/
def durable (h : History) : Ledger := { h.last with leases := h.last.leases.map h.dated }

/-- The last ledger, a lease no longer active with the deadline it was admitted with. -/
def live (h : History) : Ledger :=
  { h.last with leases := h.last.leases.map fun x => if x.state == .active then x else h.dated x }

/-- One more acknowledged ledger. -/
def push (h : History) (l : Ledger) : History := { h with produced := l :: h.produced }

end History

end LumaOS.Resources
