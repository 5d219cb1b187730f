import LumaOS.Resources.Deadlines
import Mathlib.Logic.Relation

/-!
# A worker and its lease

Model of `WorkerLease` and `Heartbeat` (`resource_manager.rs:1503-1660`) next to the broker that
keeps the ledger. One boot clock is read by both. A step is one atomic action of one thread: the
heartbeat thread and any number of calls of `WorkerLease::check` interleave freely with the broker,
and every request and every reply takes as long as it likes.

* The worker side is `Live`: the two shared atomics, what the heartbeat thread does next (`Beat`),
  and how far each check has come (`Check`).
* The broker reads its clock after it has received a request (`Manager::handle`), so a request is
  granted at a `time` that is not before it was `sent`. Between two requests it may apply any other
  operation to its ledger, and it may restart, which loses the renewed deadlines.
* A failure of the clock, of the socket or of the broker's answer can happen at every place where
  the source has a `?`.

A worker acquires once; `key` is the random request identifier of its admission, which no other
admission uses.
-/

namespace LumaOS.Resources

open LumaOS.Base LumaOS.Text

/-- `LEASE_MS`. -/
def leaseMs : Nat := 10000

/-- A renewal request: when `request` read the clock, and what the broker answered. -/
structure Ticket where
  sent : Nat
  reply : Option Bool

/-- The heartbeat thread, by what it does next. -/
inductive Beat where
  | waiting
  | woken
  | attempting
  | requesting (until_ : Nat)
  | renewing (until_ ticket : Nat)
  | renewed (until_ : Nat)
  | storing (until_ : Nat)
  | failing
  | finished
deriving DecidableEq

/-- One call of `WorkerLease::check`, by what it does next; `t` is the time it read. A call of
`check_local` ends at `accepted` or `failed`. -/
inductive Check where
  | started
  | timed (t : Nat)
  | inTime (t : Nat)
  | unfailed (t : Nat)
  | accepted (t : Nat)
  | failing
  | failed
  | renewing (t ticket : Nat)
  | renewed (t ticket : Nat)
  | unrenewed (t : Nat)
deriving DecidableEq

/-- The time at which `Heartbeat::check` accepted, if it did. -/
def Check.acceptedAt : Check → Option Nat
  | .accepted t | .renewing t _ | .renewed t _ | .unrenewed t => some t
  | _ => none

/-- A worker that holds its lease: `WorkerLease` with its heartbeat. -/
structure Live where
  token : Token
  deadline : Nat
  failed : Bool
  beat : Beat
  checks : List Check

/-- A step of the heartbeat thread that writes nothing shared. -/
inductive BeatStep (clock : Nat) (tickets : List Ticket) (failed : Bool) : Beat → Beat → Prop
  | wake : BeatStep clock tickets failed .waiting .woken
  | stop : BeatStep clock tickets failed .waiting .finished
  | poisoned : BeatStep clock tickets failed .waiting .failing
  | giveUp (h : failed = true) : BeatStep clock tickets failed .woken .finished
  | goOn (h : failed = false) : BeatStep clock tickets failed .woken .attempting
  | attempt : BeatStep clock tickets failed .attempting (.requesting (clock + leaseMs))
  | noClock : BeatStep clock tickets failed .attempting .failing
  | unsent (u : Nat) : BeatStep clock tickets failed (.requesting u) .failing
  | acknowledged {u k sent : Nat} (h : tickets[k]? = some ⟨sent, some true⟩) :
      BeatStep clock tickets failed (.renewing u k) (.renewed u)
  | unacknowledged (u k : Nat) : BeatStep clock tickets failed (.renewing u k) .failing
  | inTime {u : Nat} (h : clock < u) : BeatStep clock tickets failed (.renewed u) (.storing u)
  | late (u : Nat) : BeatStep clock tickets failed (.renewed u) .failing

/-- A step of a check that writes nothing shared. -/
inductive CheckStep (clock : Nat) (tickets : List Ticket) (w : Live) : Check → Check → Prop
  | read : CheckStep clock tickets w .started (.timed clock)
  | noClock : CheckStep clock tickets w .started .failing
  | early {t : Nat} (h : t < w.deadline) : CheckStep clock tickets w (.timed t) (.inTime t)
  | late {t : Nat} (h : w.deadline ≤ t) : CheckStep clock tickets w (.timed t) .failing
  | clear {t : Nat} (h : w.failed = false) : CheckStep clock tickets w (.inTime t) (.unfailed t)
  | flagged {t : Nat} (h : w.failed = true) : CheckStep clock tickets w (.inTime t) .failing
  | running {t : Nat} (h : w.beat ≠ .finished) :
      CheckStep clock tickets w (.unfailed t) (.accepted t)
  | ended {t : Nat} (h : w.beat = .finished) : CheckStep clock tickets w (.unfailed t) .failing
  | unsent (t : Nat) : CheckStep clock tickets w (.accepted t) (.unrenewed t)
  | acknowledged {t k sent : Nat} (h : tickets[k]? = some ⟨sent, some true⟩) :
      CheckStep clock tickets w (.renewing t k) (.renewed t k)
  | unacknowledged (t k : Nat) : CheckStep clock tickets w (.renewing t k) (.unrenewed t)

/-- A step of the worker's process. -/
inductive Live.Step (clock : Nat) (tickets : List Ticket) (w : Live) : List Ticket → Live → Prop
  | beat {b : Beat} (h : BeatStep clock tickets w.failed w.beat b) :
      Live.Step clock tickets w tickets { w with beat := b }
  | beatRequest {u : Nat} (h : w.beat = .requesting u) :
      Live.Step clock tickets w (tickets ++ [⟨clock, none⟩])
        { w with beat := .renewing u tickets.length }
  | store {u : Nat} (h : w.beat = .storing u) :
      Live.Step clock tickets w tickets { w with deadline := u, beat := .waiting }
  | fail (h : w.beat = .failing) :
      Live.Step clock tickets w tickets { w with failed := true, beat := .finished }
  | begin : Live.Step clock tickets w tickets { w with checks := w.checks ++ [.started] }
  | check {i : Nat} {c c' : Check} (h : w.checks[i]? = some c)
      (hstep : CheckStep clock tickets w c c') :
      Live.Step clock tickets w tickets { w with checks := w.checks.set i c' }
  | checkRequest {i t : Nat} (h : w.checks[i]? = some (.accepted t)) :
      Live.Step clock tickets w (tickets ++ [⟨clock, none⟩])
        { w with checks := w.checks.set i (.renewing t tickets.length) }
  | fence {i : Nat} (h : w.checks[i]? = some .failing) :
      Live.Step clock tickets w tickets
        { w with failed := true, checks := w.checks.set i .failed }

/-- `WorkerLease::acquire`: the admission it waits for, with what the broker granted, and the lease
it got. -/
inductive Session where
  | idle
  | acquiring (sent : Nat) (granted : Option Token)
  | refused
  | live (w : Live)

/-- `Heartbeat::start_with_deadline`. -/
def Live.start (token : Token) (deadline : Nat) : Live where
  token := token
  deadline := deadline
  failed := false
  beat := .waiting
  checks := []

/-- The clock, the broker (its ledger and its last reading of the clock), the renewal requests of
the worker, and the worker. -/
structure World where
  clock : Nat
  time : Nat
  ledger : Ledger
  tickets : List Ticket
  session : Session

/-- The owner and request of an admission. -/
def Ledger.Op.admits : Ledger.Op → Option (Owner × String)
  | .admitLease owner request .. => some (owner, request)
  | .admitReusingRetained owner request .. => some (owner, request)
  | _ => none

/-- Every deadline the broker grants is its last reading of the clock and `LEASE_MS`. -/
def Ledger.Op.Timely (op : Ledger.Op) (time : Nat) : Prop :=
  ∀ d, op.deadline? = some d → d = time + leaseMs

/-- The ledger a restarted broker reads back: renewed deadlines are of its last session only. -/
def Ledger.withDeadlines (l : Ledger) (deadlines : Token → Nat) : Ledger :=
  { l with leases := l.leases.map fun x => { x with deadlineMs := deadlines x.token } }

section World

variable (sha256 : Bytes → Vector UInt8 32) (me : Owner) (key : String)

/-- One step of the worker, the broker or the clock. -/
inductive World.Step (w : World) : World → Prop
  | tick (d : Nat) : World.Step w { w with clock := w.clock + d }
  | readClock : World.Step w { w with time := w.clock }
  | broker {op : Ledger.Op} (hop : op.Timely w.time) (hother : op.admits ≠ some (me, key)) :
      World.Step w { w with ledger := Ledger.step sha256 w.ledger op }
  | reopen {deadlines : Token → Nat} {epoch : String} {inventory : Table Domain} {l : Ledger}
      (h : Mut.exec (Ledger.restart epoch inventory) (w.ledger.withDeadlines deadlines) =
        (.ok (), l)) : World.Step w { w with ledger := l }
  | request (h : w.session = .idle) :
      World.Step w { w with session := .acquiring w.clock none }
  | admission {sent : Nat} {binding : String} {reservations : List Reservation} {credits : Table Nat}
      {random : Result (Vector UInt8 16)} {token : Token} {l : Ledger}
      (h : w.session = .acquiring sent none) (hreceived : sent ≤ w.time)
      (hexec : Mut.exec (Ledger.admitReusingRetained me key binding reservations w.time
        (w.time + leaseMs) credits random) w.ledger = (.ok token, l)) :
      World.Step w { w with ledger := l, session := .acquiring sent (some token) }
  | refuse {sent : Nat} {granted : Option Token} (h : w.session = .acquiring sent granted) :
      World.Step w { w with session := .refused }
  | acquired {sent : Nat} {token : Token} (h : w.session = .acquiring sent (some token))
      (hintime : w.clock < sent + leaseMs) :
      World.Step w { w with session := .live (Live.start token (sent + leaseMs)) }
  | renew {live : Live} {k sent : Nat} {l : Ledger} (h : w.session = .live live)
      (hticket : w.tickets[k]? = some ⟨sent, none⟩) (hreceived : sent ≤ w.time)
      (hexec : Mut.exec (Ledger.renew live.token me w.time (w.time + leaseMs)) w.ledger =
        (.ok (), l)) :
      World.Step w { w with ledger := l, tickets := w.tickets.set k ⟨sent, some true⟩ }
  | deny {k sent : Nat} (hticket : w.tickets[k]? = some ⟨sent, none⟩) :
      World.Step w { w with tickets := w.tickets.set k ⟨sent, some false⟩ }
  | worker {live live' : Live} {tickets : List Ticket} (h : w.session = .live live)
      (hstep : live.Step w.clock w.tickets tickets live') :
      World.Step w { w with tickets, session := .live live' }

/-- Any number of steps. -/
def World.Steps : World → World → Prop := Relation.ReflTransGen (World.Step sha256 me key)

/-- Before the worker asks: a valid ledger that does not know its request. -/
structure World.Initial (w : World) : Prop where
  valid : w.ledger.Valid
  unseen : ∀ x ∈ w.ledger.leases, ¬(x.owner = me ∧ x.request = key)
  time : w.time ≤ w.clock
  tickets : w.tickets = []
  session : w.session = .idle

/-- A world of some run. -/
def World.Reachable (w : World) : Prop :=
  ∃ w₀ : World, w₀.Initial me key ∧ World.Steps sha256 me key w₀ w

end World

end LumaOS.Resources
