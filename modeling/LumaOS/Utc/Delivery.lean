import LumaOS.Policy.Decision

/-!
# Delivery of UTC to a client

Model of `utc_provider.rs`: the reply of the keeper's query loop (`serve_release`), the sample a
client stores from it (`Client::current`), and the projection of that sample to one kernel
coordinate at dispatch (`Client::project_after_checks`).

Clock readings, process identities and the outcomes of file, socket and watch checks are what a
call reads, so each call takes a record of them, in the order in which it asks. An `Instant` is a
natural number of nanoseconds. `binding_digest` and what parsing the approved policy gave are
arguments.
-/

namespace LumaOS.Utc

open LumaOS.Base LumaOS.Text LumaOS.Governance
open LumaOS.Policy (Statement)

/-- `utc_stream::Observation`. -/
structure Observation where
  context : Statement
  utc : Interval
deriving DecidableEq

/-- `utc_provider::Reply`; `keeper` is its `instance`. -/
structure Reply where
  schemaVersion : UInt32
  nonce : String
  keeper : String
  sequence : UInt64
  capturedBoottimeMs : UInt64
  capturedMonotonicMs : UInt64
  context : Statement
  earliestMs : Int
  latestMs : Int
deriving DecidableEq

/-! ## The keeper's side -/

/-- What `serve_release` reads of its stream while it answers one query. -/
structure Answering where
  runtime : Result String
  clock : Result Clock
  candidate : Result (Option Interval)
  after : Result Clock
  producer : Epoch
  keeperGeneration : UInt64
  quiet : Result Unit

/-- The reply of `serve_release`; `sequence` is that of the reply before. -/
def serveReply (keeper nonce : String) (sequence : UInt64) (r : Answering) : Result Reply := do
  let runtime ← r.runtime
  let clock ← r.clock
  let candidate ← r.candidate
  let utc ← okOr candidate "UTC keeper lost quorum"
  let after ← r.after
  let captureSpan ← okOr ((u64Sub after.boottimeMs clock.boottimeMs).filter fun span => span ≤ 10)
    "UTC delivery capture exceeded bound"
  let span ← okOr (i64OfNat captureSpan.toNat) outOfRange
  let drift ← okOr (i64OfNat (driftOf captureSpan.toNat 100)) outOfRange
  -- the candidate was taken inside the bracket: its lower end is moved back to the first reading
  let expansion := span + 2 + drift
  let lower ← okOr (i64Sub utc.lowerMs expansion) "UTC delivery lower bound underflow"
  let utc ← Interval.new lower utc.upperMs
  refuseIf (utc.upperMs - utc.lowerMs > 500) "UTC delivery uncertainty exceeded approved width"
  let sequence ← okOr (u64Add sequence 1) "UTC delivery sequence exhausted"
  r.quiet
  pure
    { schemaVersion := 1
      nonce
      keeper
      sequence
      capturedBoottimeMs := clock.boottimeMs
      capturedMonotonicMs := clock.monotonicMs
      context :=
        { floorMs := utc.lowerMs
          policySha256 := hex r.producer.policyDigest.toList
          bootId := hex r.producer.bootId.toList
          processGeneration := r.producer.providerGeneration
          sourceClockGeneration := r.producer.clockGeneration
          keeperGeneration := r.keeperGeneration
          runtimeSha256 := runtime }
      earliestMs := utc.lowerMs
      latestMs := utc.upperMs }

/-! ## One kernel coordinate -/

/-- `utc_provider::ProjectionClock`. -/
structure ProjectionClock where
  boottimeNs : UInt64
  monotonicMs : UInt64
  process : UInt32
  euid : UInt32
  sampledInstant : Nat

/-- What `ProjectionClock::capture` reads; `boottimeNs` is its last reading. -/
structure Capture where
  before : Result UInt64
  monotonicNs : Result UInt64
  process : UInt32
  euid : UInt32
  sampledInstant : Nat
  boottimeNs : Result UInt64

/-- `ProjectionClock::capture`. -/
def ProjectionClock.capture (r : Capture) : Result ProjectionClock := do
  let before ← r.before
  let monotonicNs ← r.monotonicNs
  let boottimeNs ← r.boottimeNs
  refuseIf (boottimeNs < before || boottimeNs - before > 2000000 || boottimeNs < monotonicNs)
    "UTC dispatch kernel clock bracket was delayed or inconsistent"
  pure
    { boottimeNs
      monotonicMs := monotonicNs / 1000000
      process := r.process
      euid := r.euid
      sampledInstant := r.sampledInstant }

/-- `ProjectionClock::coordinate`. -/
def ProjectionClock.coordinate (c : ProjectionClock) : Clock where
  boottimeMs := c.boottimeNs / 1000000
  monotonicMs := c.monotonicMs
  realtimeMs := 0
  suspendGeneration := 0

/-! ## The stored sample -/

/-- `utc_provider::DeliverySample`. -/
structure DeliverySample where
  history : String
  keeper : String
  sequence : UInt64
  context : Statement
  raw : Interval
  capturedBoottimeMs : UInt64
  capturedMonotonicMs : UInt64
  lastClock : Clock
  lastProjectionNs : Option UInt64
  deliveredContext : Statement
  deliveredUtc : Interval
  deadline : Nat

/-- The bytes of `tpm::decode::<N>`, as the array they are. -/
def decodeArray (n : Nat) (value : String) : Result (Vector UInt8 n) := do
  let bytes ← decode n value
  pure (Vector.ofFn fun index => bytes.getD index 0)

/-- The `Epoch` a delivered context names. -/
def epochOf (context : Statement) : Result Epoch := do
  let bootId ← decodeArray 16 context.bootId
  let policyDigest ← decodeArray 32 context.policySha256
  pure
    { bootId
      providerGeneration := context.processGeneration
      clockGeneration := context.sourceClockGeneration
      policyDigest }

/-- The policy a client projects with. -/
def deliveryPolicy : Policy where
  maxAgeMs := 250
  maxWidthMs := 500
  driftPpm := 100

/-- `utc_bounds::project` of what a reply delivered. -/
def projectDelivered (context : Statement) (utc : Interval) (observedBoottimeMs now : UInt64) :
    Result Interval := do
  let epoch ← epochOf context
  project { operator := 1, utc, observedBoottimeMs, epoch } now epoch deliveryPolicy

namespace DeliverySample

/-- `DeliverySample::require_deadline`. -/
def requireDeadline (s : DeliverySample) (now : Nat) : Result Unit :=
  refuseIf (now ≥ s.deadline) "UTC local projection exhausted its original query deadline"

/-- `DeliverySample::require_binding`. -/
def requireBinding (s : DeliverySample) (history : String) (generation : Option (String × Statement))
    (sequence : UInt64) (previous : Observation) : Result Unit :=
  refuseIf (s.history != history || s.sequence == 0 || s.sequence != sequence ||
      generation != some (s.keeper, { s.context with floorMs := 0 }) ||
      previous.context != s.deliveredContext || previous.utc != s.deliveredUtc)
    "UTC local projection does not match its last admitted delivery"

/-- One pair of the loop of `project`: both clocks advanced, and by the same. -/
def checkElapsed (now : Clock) (since : UInt64 × UInt64) : Result Unit := do
  let bootElapsed ← okOr (u64Sub now.boottimeMs since.1) "UTC local projection boot clock regressed"
  let monoElapsed ← okOr (u64Sub now.monotonicMs since.2)
    "UTC local projection monotonic clock regressed"
  refuseIf (((bootElapsed.toNat : Int) - monoElapsed.toNat).natAbs > 2)
    "UTC local projection crossed suspend or a clock discontinuity"

/-- `DeliverySample::project`. -/
def project (fixed : Result ApprovedPolicy) (s : DeliverySample) (initial now : Clock)
    (floorMs : Int) : Result Observation := do
  s.context.validate fixed
  refuseIf (s.context.floorMs != s.raw.lowerMs || now.boottimeMs < s.lastClock.boottimeMs ||
      now.monotonicMs < s.lastClock.monotonicMs ||
      now.suspendGeneration != initial.suspendGeneration ||
      s.lastClock.suspendGeneration != initial.suspendGeneration)
    "UTC local projection crossed its admitted clock state"
  [(initial.boottimeMs, initial.monotonicMs), (s.capturedBoottimeMs, s.capturedMonotonicMs),
    (s.lastClock.boottimeMs, s.lastClock.monotonicMs)].forM (checkElapsed now)
  let utc ← projectDelivered s.context s.raw s.capturedBoottimeMs now.boottimeMs
  refuseIf (utc.lowerMs < floorMs || utc.upperMs - utc.lowerMs > 500)
    "UTC local projection exceeded its protected floor or width"
  pure { context := { s.context with floorMs := utc.lowerMs }, utc }

/-- `real_upper_ns`: the greatest real age of a sample of which the clock measured `ageNs`. -/
def realUpperNs (ageNs : Nat) : Nat := ageNs + divCeil (ageNs * 100) 999900

/-- The part of `finish_projection` before its callback: what it would deliver. -/
def dispatch (fixed : Result ApprovedPolicy) (s : DeliverySample) (initial : Clock) (floorMs : Int)
    (coordinate : ProjectionClock) : Result Observation := do
  s.requireDeadline (coordinate.sampledInstant + 2000000)
  refuseIf (s.lastProjectionNs.any fun previous => coordinate.boottimeNs < previous)
    "UTC dispatch nanosecond coordinate regressed"
  let now := coordinate.coordinate
  let result ← s.project fixed initial now floorMs
  let ageMs ← okOr (u64Sub now.boottimeMs s.capturedBoottimeMs)
    "UTC dispatch predates its original capture"
  let ageNs := ageMs.toNat * 1000000 + coordinate.boottimeNs.toNat % 1000000
  refuseIf (realUpperNs ageNs > 250000000)
    "UTC dispatch exhausted its original full-nanosecond sample age"
  let age ← okOr (i64OfNat (divCeil (realUpperNs ageNs) 1000000)) outOfRange
  let upper ← okOr (i64Add s.raw.upperMs age) "UTC dispatch outward projection overflowed"
  let upper := max upper result.utc.upperMs
  let lower := result.utc.lowerMs
  refuseIf (upper - lower > 500) "UTC dispatch fractional projection exceeded its approved width"
  let utc ← Interval.new lower upper
  pure { result with utc }

/-- `DeliverySample::finish_projection`. -/
def finishProjection (fixed : Result ApprovedPolicy) (initial : Clock) (floorMs : Int)
    (coordinate : ProjectionClock) (finish : ProjectionClock → Result Unit) :
    Mut DeliverySample Observation := do
  let s ← get
  let result ← s.dispatch fixed initial floorMs coordinate
  finish coordinate
  set
    { s with
      lastClock := coordinate.coordinate
      lastProjectionNs := some coordinate.boottimeNs
      deliveredContext := result.context
      deliveredUtc := result.utc }
  pure result

end DeliverySample

/-! ## The client -/

/-- `admin_governance::Identity`. -/
structure AdminIdentity where
  installation : String
  principal : String
  generation : UInt64
  login : String
  uid : UInt32

/-- `admin_governance::HistoryBinding`. -/
structure HistoryBinding where
  deployment : String
  enrollmentSha256 : String
  principal : AdminIdentity
  checkpointHead : String
  historyFloorMs : Int
  historyVersion : UInt64
  resetCount : UInt32
  restartCount : UInt32

/-- `utc_provider::Identity`, what `endpoint` found of the query socket. -/
structure EndpointIdentity where
  dev : UInt64
  ino : UInt64
  mode : UInt32
  uid : UInt32
  gid : UInt32
  nlink : UInt64
  len : UInt64
  mtime : Int
  mtimeNsec : Int
  ctime : Int
  ctimeNsec : Int
deriving DecidableEq

/-- `utc_provider::Client`. The release and the step watch only answer checks, and of the peer's
pidfd the calls ask whether it is alive. -/
structure Client where
  endpoint : EndpointIdentity
  peer : Option Int
  history : Option String
  generation : Option (String × Statement)
  lastSequence : UInt64
  sample : Option DeliverySample
  process : UInt32
  initial : Clock
  fenced : Bool

/-- What `Client::current` reads, in order. -/
structure QueryReads where
  watch : Result Unit
  started : Nat
  release : Result Unit
  endpoint : Result EndpointIdentity
  before : Result Clock
  peer : Result Int
  peerAlive : Result Bool
  peerPidfd : Result Unit
  nonce : Result String
  reply : Result Reply
  now : Result Clock
  received : Nat
  kernelBoot : Result Bytes
  releaseAgain : Result Unit
  endpointAgain : Result EndpointIdentity
  peerAliveAgain : Result Bool
  watchAgain : Result Unit
  finalClock : Result Clock
  finished : Nat

/-- What `Client::project_after_checks` reads, in order. -/
structure ProjectionReads where
  process : UInt32
  euid : UInt32
  now : Nat
  watch : Result Unit
  peerAlive : Result Bool
  first : Result Clock
  watchAgain : Result Unit
  peerAliveAgain : Result Bool
  capture : Capture

/-- `BUDGET`, in nanoseconds. -/
def budget : Nat := 250000000

namespace Client

/-- The reply answers this query, and no clock was stepped while it was made. -/
def checkReply (c : Client) (reply : Reply) (nonce : String) (deadline : Nat) (before now : Clock)
    (q : QueryReads) : Result Unit := do
  let stale := "UTC response is stale, replayed or crossed a clock boundary"
  refuseIf (reply.schemaVersion != 1 || reply.nonce != nonce || reply.sequence ≤ c.lastSequence ||
      q.received ≥ deadline || reply.capturedBoottimeMs < before.boottimeMs ||
      reply.capturedBoottimeMs > now.boottimeMs || reply.capturedMonotonicMs < before.monotonicMs ||
      reply.capturedMonotonicMs > now.monotonicMs ||
      (((now.boottimeMs.toNat - before.boottimeMs.toNat : Nat) : Int) -
        (now.monotonicMs.toNat - before.monotonicMs.toNat : Nat)).natAbs > 2)
    stale
  let bootElapsed ← okOr (u64Sub now.boottimeMs c.initial.boottimeMs) "UTC boot clock regressed"
  let monoElapsed ← okOr (u64Sub now.monotonicMs c.initial.monotonicMs)
    "UTC monotonic clock regressed"
  refuseIf (((bootElapsed.toNat : Int) - monoElapsed.toNat).natAbs > 2) stale
  let boot ← q.kernelBoot
  refuseIf (reply.context.bootId != hex boot) stale

/-- The peer that answers is the one the client pinned; the first one is pinned here. -/
def pinPeer (q : QueryReads) : Mut Client Unit := do
  let pid ← q.peer
  match (← get).peer with
  | some old =>
    refuseIf (pid != old) "UTC keeper process generation changed"
    let alive ← q.peerAlive
    refuseIf (!alive) "UTC keeper process generation changed"
  | none =>
    q.peerPidfd
    modify fun c => { c with peer := some pid }

/-- `nonce`. -/
def checkNonce (value : String) : Result Unit := do
  let empty ← emptyDigest 32 value
  refuseIf empty "UTC operation nonce is zero"

/-- `Client::current_inner` from the reply on: the interval at the final clock reading, and the
client that keeps the sample. -/
def admitReply (fixed : Result ApprovedPolicy) (binding : HistoryBinding) (history : String)
    (deadline : Nat) (reply : Reply) (q : QueryReads) (c : Client) :
    Result (Observation × Client) := do
  checkNonce reply.keeper
  reply.context.validate fixed
  let raw ← Interval.new reply.earliestMs reply.latestMs
  refuseIf (reply.context.floorMs != raw.lowerMs || raw.upperMs - raw.lowerMs > 500)
    "UTC delivered interval differs from its actual observation"
  let generation := (reply.keeper, { reply.context with floorMs := 0 })
  refuseIf (c.generation.any fun old => old != generation)
    "UTC keeper or source generation changed"
  q.releaseAgain
  let endpoint ← q.endpointAgain
  refuseIf (endpoint != c.endpoint) "UTC peer changed during delivery"
  refuseIf c.peer.isNone "UTC peer missing"
  let alive ← q.peerAliveAgain
  refuseIf (!alive) "UTC peer changed during delivery"
  q.watchAgain
  let finalClock ← q.finalClock
  let utc ← projectDelivered reply.context raw reply.capturedBoottimeMs finalClock.boottimeMs
  refuseIf (utc.lowerMs < binding.historyFloorMs || utc.upperMs - utc.lowerMs > 500 ||
      q.finished ≥ deadline)
    "UTC delivery exceeded protected floor, width or deadline"
  let context := { reply.context with floorMs := utc.lowerMs }
  let sample :=
    { history
      keeper := reply.keeper
      sequence := reply.sequence
      context := reply.context
      raw
      capturedBoottimeMs := reply.capturedBoottimeMs
      capturedMonotonicMs := reply.capturedMonotonicMs
      lastClock := finalClock
      lastProjectionNs := none
      deliveredContext := context
      deliveredUtc := utc
      deadline }
  pure ({ context, utc },
    { c with
      history := some history
      generation := some generation
      lastSequence := reply.sequence
      sample := some sample })

/-- `Client::current_inner`. -/
def currentInner (fixed : Result ApprovedPolicy) (digest : HistoryBinding → String)
    (binding : HistoryBinding) (q : QueryReads) : Mut Client Observation := do
  q.watch
  let deadline := q.started + budget
  q.release
  let endpoint ← q.endpoint
  let c ← get
  refuseIf (endpoint != c.endpoint) "UTC query socket changed"
  let history := digest binding
  refuseIf (c.history.any fun old => old != history) "UTC client's shared history changed"
  let before ← q.before
  pinPeer q
  let nonce ← q.nonce
  let reply ← q.reply
  let now ← q.now
  let c ← get
  c.checkReply reply nonce deadline before now q
  let (observation, c') ← admitReply fixed binding history deadline reply q c
  set c'
  pure observation

def fencedMessage : String := "UTC client is fenced; explicit reconstruction required"

/-- `Client::current`. -/
def current (fixed : Result ApprovedPolicy) (digest : HistoryBinding → String)
    (binding : HistoryBinding) (q : QueryReads) : Mut Client Observation := do
  refuseIf (← get).fenced fencedMessage
  Mut.onError (fun c => { c with fenced := true }) (currentInner fixed digest binding q)

/-- What `Client::project_after_checks_inner` checks before it dispatches: the sample to project,
and the coordinate. -/
def checkDispatch (fixed : Result ApprovedPolicy) (digest : HistoryBinding → String)
    (binding : HistoryBinding) (previous : Observation) (r : ProjectionReads) (c : Client) :
    Result (DeliverySample × ProjectionClock) := do
  refuseIf (r.process != c.process || r.euid != 0)
    "UTC local projection left its original protected process"
  let sample ← okOr c.sample "UTC client has no admitted query sample"
  let history := digest binding
  refuseIf (c.history != some history) "UTC local projection changed its shared history"
  sample.requireBinding history c.generation c.lastSequence previous
  sample.requireDeadline r.now
  r.watch
  refuseIf c.peer.isNone "UTC local projection lacks its admitted peer"
  let alive ← r.peerAlive
  refuseIf (!alive) "UTC local projection keeper exited"
  let first ← r.first
  let _ ← sample.project fixed c.initial first binding.historyFloorMs
  r.watchAgain
  let alive ← r.peerAliveAgain
  refuseIf (!alive) "UTC local projection keeper exited during observation"
  let coordinate ← ProjectionClock.capture r.capture
  let now := coordinate.coordinate
  refuseIf (now.boottimeMs < first.boottimeMs || now.monotonicMs < first.monotonicMs ||
      coordinate.process != c.process || coordinate.euid != 0)
    "UTC local projection expired or changed context during dispatch"
  pure (sample, coordinate)

/-- `Client::project_after_checks_inner`. -/
def projectInner (fixed : Result ApprovedPolicy) (digest : HistoryBinding → String)
    (binding : HistoryBinding) (previous : Observation) (r : ProjectionReads)
    (finish : ProjectionClock → Result Unit) : Mut Client Observation := do
  let c ← get
  let (sample, coordinate) ← checkDispatch fixed digest binding previous r c
  Mut.focus (fun _ => sample) (fun sample c => { c with sample := some sample })
    (DeliverySample.finishProjection fixed c.initial binding.historyFloorMs coordinate finish)

/-- `Client::project_after_checks`. -/
def projectAfterChecks (fixed : Result ApprovedPolicy) (digest : HistoryBinding → String)
    (binding : HistoryBinding) (previous : Observation) (r : ProjectionReads)
    (finish : ProjectionClock → Result Unit) : Mut Client Observation := do
  refuseIf (← get).fenced fencedMessage
  Mut.onError (fun c => { c with fenced := true, sample := none })
    (projectInner fixed digest binding previous r finish)

end Client

end LumaOS.Utc
