import LumaOS.Resources.Worker

/-!
# A worker's local check stays within its lease

`Covered` says that a time is covered by the ledger: the lease of the token, while it is active,
has a deadline of at least that time. The broker only moves deadlines forward, with the clock, so a
covered time stays covered (`Covered.op`). Everything the worker relies on is covered: its own
deadline, which it counts from before it sent the request, and every renewal that was acknowledged
(`LiveSafe`).

`Since` is about what a run leaves of the past: once a check has failed or the heartbeat ended,
every check begun later fails.

**`local_check_within_lease`** puts the two together.
-/

namespace LumaOS.Resources

open LumaOS.Base LumaOS.Text

variable {sha256 : Bytes → Vector UInt8 32} {me : Owner} {key : String}

/-! ## Covered times -/

/-- While the lease of `token` is active its deadline is at least `d`, and no grant of `time` or
later is shorter. -/
structure Covered (l : Ledger) (time : Nat) (token : Token) (d : Nat) : Prop where
  known : token.generation ≤ l.generation
  bound : d ≤ time + leaseMs
  lease : ∀ x ∈ l.leases, x.token = token → x.state = .active → d ≤ x.deadlineMs

section Covered

variable {l l' : Ledger} {time time' d : Nat} {token : Token}

theorem Covered.later (h : Covered l time token d) (hle : time ≤ time') :
    Covered l time' token d where
  known := h.known
  bound := h.bound.trans (Nat.add_le_add_right hle _)
  lease := h.lease

/-- **A covered time stays covered** whatever the broker does at that time. -/
theorem Covered.op (h : Covered l time token d) (hv : l.Valid) {op : Ledger.Op}
    (hop : op.Timely time) : Covered (Ledger.step sha256 l op) time token d := by
  obtain ⟨r, heffect⟩ := Ledger.step_effect hv sha256 op
  refine ⟨h.known.trans heffect.generation_le, h.bound, fun y hy htoken hactive => ?_⟩
  obtain ⟨x, hx, hxy, hxactive, hkept | hasked⟩ :=
    Ledger.step_deadline hv sha256 op hy hactive (by rw [htoken]; exact h.known)
  · rw [hkept]
    exact h.lease x hx (hxy.trans htoken) hxactive
  · rw [hop _ hasked]
    exact h.bound

theorem restart_drains {epoch : String} {inventory : Table Domain} {deadlines : Token → Nat}
    (h : Mut.exec (Ledger.restart epoch inventory) (l.withDeadlines deadlines) = (.ok (), l')) :
    l'.Valid ∧ l'.generation = l.generation ∧ ∀ x ∈ l'.leases, x.state ≠ .active := by
  have hspec : Mut.Spec (Ledger.restart epoch inventory) (l.withDeadlines deadlines)
      fun _ l' => l'.Valid ∧ l'.generation = l.generation ∧
        ∀ x ∈ l'.leases, x.state ≠ .active := by
    unfold Ledger.restart
    refine Mut.spec_bind_get (Mut.spec_bind_lift fun _ _ => Mut.spec_bind_lift fun _ _ =>
      Mut.spec_bind_lift fun domains _ => Mut.spec_bind_lift fun _ hvalid => Mut.spec_set ?_)
    refine ⟨Ledger.validate_eq_ok.mp hvalid, rfl, fun x hx => ?_⟩
    simp only [Ledger.fenceOutputs, List.mem_map] at hx
    obtain ⟨_, ⟨y, -, rfl⟩, rfl⟩ := hx
    exact y.drain_state_ne "manager-restart"
  exact hspec.of_ok h

theorem Covered.restarted (h : Covered l time token d) (hgeneration : l'.generation = l.generation)
    (hdrained : ∀ x ∈ l'.leases, x.state ≠ .active) : Covered l' time token d where
  known := hgeneration ▸ h.known
  bound := h.bound
  lease x hx _ hactive := absurd hactive (hdrained x hx)

/-- A fresh admission covers the deadline it wrote. -/
theorem Covered.of_fresh {lease : Lease} (hv : l.Valid) (h : Ledger.Fresh l lease l')
    (hd : d ≤ lease.deadlineMs) (hbound : d ≤ time + leaseMs) :
    Covered l' time lease.token d := by
  refine ⟨by rw [h.token, h.generation], hbound, fun x hx htoken _ => ?_⟩
  rw [h.leases, List.mem_append, List.mem_singleton] at hx
  obtain hx | rfl := hx
  · -- an older lease has a smaller generation
    have hold := (hv.leaseOk hx).generation
    rw [htoken, h.token] at hold
    omega
  · exact hd

theorem Covered.of_renewed (hv : l.Valid) {owner : Owner} {now deadline : Nat}
    (h : Mut.exec (Ledger.renew token owner now deadline) l = (.ok (), l'))
    (hknown : token.generation ≤ l.generation) (hd : d ≤ deadline) (hbound : d ≤ time + leaseMs) :
    Covered l' time token d := by
  have hrenewed := (Ledger.renewed_renew hv token owner now deadline).of_ok h
  have hquiet := (Ledger.spec_renew hv token owner now deadline).of_ok h
  refine ⟨hquiet.generation ▸ hknown, hbound, fun x hx htoken _ => ?_⟩
  rw [hrenewed.2 x hx htoken]
  exact hd

end Covered

/-! ## Successful calls as operations -/

theorem step_of_renew {l l' : Ledger} {token : Token} {owner : Owner} {now deadline : Nat}
    (h : Mut.exec (Ledger.renew token owner now deadline) l = (.ok (), l')) :
    Ledger.step sha256 l (.renew token owner now deadline) = l' := by
  show (Mut.exec (do Ledger.renew token owner now deadline; pure (none : Option Token)) l).2 = l'
  rw [Mut.exec_bind_of_ok h]
  rfl

/-! ## What a live worker relies on -/

/-- The time a check relies on, once it compared it with the deadline. -/
def Check.trusted : Check → Option Nat
  | .inTime t | .unfailed t | .accepted t | .renewing t _ | .renewed t _ | .unrenewed t => some t
  | _ => none

/-- The broker, as a worker sees it: its ledger, its clock, and its answers. -/
structure View where
  ledger : Ledger
  time : Nat
  clock : Nat
  tickets : List Ticket

def World.view (w : World) : View := ⟨w.ledger, w.time, w.clock, w.tickets⟩

/-- What the heartbeat thread will store is covered once it is acknowledged, and counted from
before the request until then. -/
def BeatSafe (v : View) (token : Token) : Beat → Prop
  | .requesting u => u ≤ v.clock + leaseMs
  | .renewing u k => ∃ ticket, v.tickets[k]? = some ticket ∧ u ≤ ticket.sent + leaseMs
  | .renewed u | .storing u => Covered v.ledger v.time token u
  | _ => True

structure LiveSafe (v : View) (w : Live) : Prop where
  deadline : Covered v.ledger v.time w.token w.deadline
  tickets : ∀ ticket ∈ v.tickets, ticket.reply = some true →
    Covered v.ledger v.time w.token (ticket.sent + leaseMs)
  beat : BeatSafe v w.token w.beat
  checks : ∀ c ∈ w.checks, ∀ t, c.trusted = some t →
    ∃ d, t < d ∧ Covered v.ledger v.time w.token d
  failed : .failed ∈ w.checks → w.failed = true
  acked : ∀ t k, .renewed t k ∈ w.checks →
    ∃ ticket, v.tickets[k]? = some ticket ∧ ticket.reply = some true

section Live

variable {v v' : View} {w : Live}

/-- Covered times stay covered, and time passes: nothing else matters to a worker. -/
theorem LiveSafe.view (h : LiveSafe v w)
    (hcovered : ∀ d, Covered v.ledger v.time w.token d → Covered v'.ledger v'.time w.token d)
    (hclock : v.clock ≤ v'.clock)
    (hsent : ∀ (k : Nat) ticket, v.tickets[k]? = some ticket →
      ∃ ticket', v'.tickets[k]? = some ticket' ∧ ticket'.sent = ticket.sent ∧
        (ticket.reply = some true → ticket'.reply = some true))
    (hreply : ∀ ticket ∈ v'.tickets, ticket.reply = some true →
      Covered v'.ledger v'.time w.token (ticket.sent + leaseMs)) : LiveSafe v' w where
  deadline := hcovered _ h.deadline
  tickets := hreply
  beat := by
    have hbeat := h.beat
    cases hb : w.beat with
    | requesting u =>
      rw [hb] at hbeat
      exact hbeat.trans (Nat.add_le_add_right hclock _)
    | renewing u k =>
      rw [hb] at hbeat
      obtain ⟨ticket, hticket, hle⟩ := hbeat
      obtain ⟨ticket', hticket', hsame, -⟩ := hsent k ticket hticket
      exact ⟨ticket', hticket', hsame ▸ hle⟩
    | renewed u | storing u =>
      rw [hb] at hbeat
      exact hcovered _ hbeat
    | waiting => trivial
    | woken => trivial
    | attempting => trivial
    | failing => trivial
    | finished => trivial
  checks c hc t ht := by
    obtain ⟨d, hlt, hd⟩ := h.checks c hc t ht
    exact ⟨d, hlt, hcovered d hd⟩
  failed := h.failed
  acked t k hmem := by
    obtain ⟨ticket, hticket, hreply⟩ := h.acked t k hmem
    obtain ⟨ticket', hticket', -, hkept⟩ := hsent k ticket hticket
    exact ⟨ticket', hticket', hkept hreply⟩

theorem BeatStep.safe (h : LiveSafe v w) {b : Beat}
    (hstep : BeatStep v.clock v.tickets w.failed w.beat b) : BeatSafe v w.token b := by
  have hbeat := h.beat
  cases hb : w.beat with
  | waiting | woken =>
    rw [hb] at hstep
    cases hstep <;> trivial
  | attempting =>
    rw [hb] at hstep
    cases hstep with
    | attempt => exact Nat.le_refl _
    | noClock => trivial
  | requesting u =>
    rw [hb] at hstep
    cases hstep
    trivial
  | renewing u k =>
    rw [hb] at hstep hbeat
    obtain ⟨ticket, hticket, hle⟩ := hbeat
    cases hstep with
    | acknowledged hreply =>
      rw [hticket] at hreply
      obtain rfl := Option.some.inj hreply
      have hcovered := h.tickets _ (List.mem_of_getElem? hticket) rfl
      exact ⟨hcovered.known, hle.trans hcovered.bound,
        fun x hx htoken hactive => hle.trans (hcovered.lease x hx htoken hactive)⟩
    | unacknowledged => trivial
  | renewed u =>
    rw [hb] at hstep hbeat
    cases hstep with
    | inTime _ => exact hbeat
    | late => trivial
  | storing u | failing | finished =>
    rw [hb] at hstep
    cases hstep

theorem CheckStep.safe (h : LiveSafe v w) {c c' : Check} (hc : c ∈ w.checks)
    (hstep : CheckStep v.clock v.tickets w c c') :
    (∀ t, c'.trusted = some t → ∃ d, t < d ∧ Covered v.ledger v.time w.token d) ∧
      c' ≠ .failed ∧
      ∀ t k, c' = .renewed t k → ∃ ticket, v.tickets[k]? = some ticket ∧ ticket.reply = some true := by
  have hold := h.checks c hc
  cases hstep with
  | read | noClock => exact ⟨fun t ht => (by cases ht), by simp, by simp⟩
  | early hlt =>
    refine ⟨fun t ht => ?_, by simp, by simp⟩
    cases ht
    exact ⟨_, hlt, h.deadline⟩
  | late _ => exact ⟨fun t ht => (by cases ht), by simp, by simp⟩
  | clear _ => exact ⟨hold, by simp, by simp⟩
  | flagged _ => exact ⟨fun t ht => (by cases ht), by simp, by simp⟩
  | running _ => exact ⟨hold, by simp, by simp⟩
  | ended _ => exact ⟨fun t ht => (by cases ht), by simp, by simp⟩
  | unsent _ => exact ⟨hold, by simp, by simp⟩
  | acknowledged hreply =>
    refine ⟨hold, by simp, fun t k he => ?_⟩
    cases he
    exact ⟨_, hreply, rfl⟩
  | unacknowledged _ _ => exact ⟨hold, by simp, by simp⟩

/-- A request just sent has no answer yet. -/
theorem LiveSafe.send (h : LiveSafe v w) :
    LiveSafe { v with tickets := v.tickets ++ [⟨v.clock, none⟩] } w := by
  refine h.view (fun _ hd => hd) (Nat.le_refl _) (fun k ticket hticket => ?_) ?_
  · refine ⟨ticket, ?_, rfl, id⟩
    rw [List.getElem?_append_left (List.getElem?_eq_some_iff.mp hticket).1]
    exact hticket
  · intro ticket hmem hreply
    rw [List.mem_append, List.mem_singleton] at hmem
    obtain hmem | rfl := hmem
    · exact h.tickets ticket hmem hreply
    · cases hreply

theorem mem_set_cases {α : Type} {xs : List α} {i : Nat} {x y : α} (h : y ∈ xs.set i x) :
    y = x ∨ y ∈ xs := (List.mem_or_eq_of_mem_set h).symm

/-- **Every step of the worker relies on covered times only.** -/
theorem Live.Step.safe (h : LiveSafe v w) {tickets : List Ticket} {w' : Live}
    (hstep : w.Step v.clock v.tickets tickets w') : LiveSafe { v with tickets } w' := by
  cases hstep with
  | beat hbeat => exact { h with beat := hbeat.safe h }
  | @beatRequest u hb =>
    have hbeat := h.beat
    rw [hb] at hbeat
    refine { h.send with beat := ⟨⟨v.clock, none⟩, ?_, hbeat⟩ }
    exact List.getElem?_concat_length
  | store hb =>
    have hbeat := h.beat
    rw [hb] at hbeat
    exact { h with deadline := hbeat, beat := trivial }
  | fail _ => exact { h with beat := trivial, failed := fun _ => rfl }
  | begin =>
    refine { h with checks := fun c hc t ht => ?_, failed := fun hmem => ?_, acked := ?_ }
    · rw [List.mem_append, List.mem_singleton] at hc
      obtain hc | rfl := hc
      · exact h.checks c hc t ht
      · cases ht
    · rw [List.mem_append, List.mem_singleton] at hmem
      obtain hmem | hmem := hmem
      · exact h.failed hmem
      · cases hmem
    · intro t k hmem
      rw [List.mem_append, List.mem_singleton] at hmem
      obtain hmem | hmem := hmem
      · exact h.acked t k hmem
      · cases hmem
  | check hc hcheck =>
    obtain ⟨htrusted, hne, hacked⟩ := hcheck.safe h (List.mem_of_getElem? hc)
    refine { h with checks := fun c hmem t ht => ?_, failed := fun hmem => ?_, acked := ?_ }
    · obtain rfl | hmem := mem_set_cases hmem
      · exact htrusted t ht
      · exact h.checks c hmem t ht
    · obtain hmem | hmem := mem_set_cases hmem
      · exact absurd hmem.symm hne
      · exact h.failed hmem
    · intro t k hmem
      obtain hmem | hmem := mem_set_cases hmem
      · exact hacked t k hmem.symm
      · exact h.acked t k hmem
  | checkRequest hc =>
    refine { h.send with checks := fun c hmem t ht => ?_, failed := fun hmem => ?_, acked := ?_ }
    · obtain rfl | hmem := mem_set_cases hmem
      · exact h.checks _ (List.mem_of_getElem? hc) t ht
      · exact h.checks c hmem t ht
    · obtain hmem | hmem := mem_set_cases hmem
      · cases hmem
      · exact h.failed hmem
    · intro t k hmem
      obtain hmem | hmem := mem_set_cases hmem
      · cases hmem
      · exact h.send.acked t k hmem
  | fence _ =>
    refine { h with checks := fun c hmem t ht => ?_, failed := fun _ => rfl, acked := ?_ }
    · obtain rfl | hmem := mem_set_cases hmem
      · cases ht
      · exact h.checks c hmem t ht
    · intro t k hmem
      obtain hmem | hmem := mem_set_cases hmem
      · cases hmem
      · exact h.acked t k hmem

end Live

/-! ## The invariant of a run -/

/-- No lease belongs to the admission the worker is about to ask for. -/
def Unseen (me : Owner) (key : String) (l : Ledger) : Prop :=
  ∀ x ∈ l.leases, ¬(x.owner = me ∧ x.request = key)

theorem Unseen.op {l : Ledger} (h : Unseen me key l) (hv : l.Valid) {op : Ledger.Op}
    (hother : op.admits ≠ some (me, key)) : Unseen me key (Ledger.step sha256 l op) := by
  obtain ⟨r, heffect⟩ := Ledger.step_effect hv sha256 op
  rintro y hy ⟨rfl, rfl⟩
  obtain ⟨x, hx, hevolves⟩ | hfresh := heffect.origin hy
  · exact h x hx ⟨hevolves.owner.symm, hevolves.request.symm⟩
  · have hnew := hfresh.generation
    generalize Ledger.step sha256 l op = l' at *
    cases heffect with
    | quiet hquiet =>
      rw [hquiet.generation] at hnew
      omega
    | admitted hadmitted _ | reused hadmitted _ =>
      have hlast := hadmitted.leases.symm.trans hfresh.leases
      obtain rfl := List.singleton_inj.mp (List.append_cancel_left hlast)
      exact hother rfl
    | drained hdrained =>
      rw [hdrained.generation] at hnew
      omega
    | observed hobserved =>
      rw [hobserved.generation] at hnew
      omega
    | cut hcut =>
      rw [hcut.generation] at hnew
      omega

theorem Unseen.restarted {l l' : Ledger} (h : Unseen me key l) {epoch : String}
    {inventory : Table Domain} {deadlines : Token → Nat}
    (hexec : Mut.exec (Ledger.restart epoch inventory) (l.withDeadlines deadlines) = (.ok (), l')) :
    Unseen me key l' := by
  obtain ⟨hquiet, -⟩ := (Ledger.spec_restart epoch inventory).of_ok hexec
  obtain ⟨f, hleases, hf⟩ := hquiet.leases
  rintro y hy ⟨rfl, rfl⟩
  rw [hleases] at hy
  obtain ⟨x, hx, rfl⟩ := List.mem_map.mp hy
  have hevolves := (hf x hx).1
  obtain ⟨z, hz, rfl⟩ := List.mem_map.mp hx
  exact h z hz ⟨hevolves.owner.symm, hevolves.request.symm⟩

/-- What holds of a session of the worker. -/
def SessionSafe (me : Owner) (key : String) (v : View) : Session → Prop
  | .idle => Unseen me key v.ledger ∧ v.tickets = []
  | .acquiring _ none => Unseen me key v.ledger ∧ v.tickets = []
  | .acquiring sent (some token) => Covered v.ledger v.time token (sent + leaseMs) ∧ v.tickets = []
  | .refused => True
  | .live w => LiveSafe v w

structure World.Safe (me : Owner) (key : String) (w : World) : Prop where
  valid : w.ledger.Valid
  time : w.time ≤ w.clock
  session : SessionSafe me key w.view w.session

/-- A step of the broker or the clock that keeps covered times covered, the worker's admission
unseen, and every answer. -/
theorem SessionSafe.view {v v' : View} {s : Session} (h : SessionSafe me key v s)
    (hcovered : ∀ token d, Covered v.ledger v.time token d → Covered v'.ledger v'.time token d)
    (hunseen : Unseen me key v.ledger → Unseen me key v'.ledger) (hclock : v.clock ≤ v'.clock)
    (htickets : v'.tickets = v.tickets) : SessionSafe me key v' s := by
  cases s with
  | idle => exact ⟨hunseen h.1, htickets.trans h.2⟩
  | acquiring sent granted =>
    cases granted with
    | none => exact ⟨hunseen h.1, htickets.trans h.2⟩
    | some token => exact ⟨hcovered token _ h.1, htickets.trans h.2⟩
  | refused => trivial
  | live w =>
    have h : LiveSafe v w := h
    refine h.view (hcovered w.token) hclock (fun k ticket hticket => ⟨ticket, ?_, rfl, id⟩) ?_
    · rw [htickets]
      exact hticket
    · intro ticket hmem hreply
      rw [htickets] at hmem
      exact hcovered _ _ (h.tickets ticket hmem hreply)

/-- An answer to one request. -/
theorem LiveSafe.answer {v : View} {w : Live} {l : Ledger} {k sent : Nat} {granted : Bool}
    (h : LiveSafe v w) (hticket : v.tickets[k]? = some ⟨sent, none⟩)
    (hcovered : ∀ d, Covered v.ledger v.time w.token d → Covered l v.time w.token d)
    (hgranted : granted = true → Covered l v.time w.token (sent + leaseMs)) :
    LiveSafe { v with ledger := l, tickets := v.tickets.set k ⟨sent, some granted⟩ } w := by
  refine h.view hcovered (Nat.le_refl _) (fun j ticket hj => ?_) ?_
  · dsimp only
    by_cases hjk : k = j
    · subst hjk
      rw [hticket] at hj
      obtain rfl := Option.some.inj hj
      refine ⟨⟨sent, some granted⟩, ?_, rfl, fun hreply => (by cases hreply)⟩
      rw [List.getElem?_set_self (List.getElem?_eq_some_iff.mp hticket).1]
    · exact ⟨ticket, by rw [List.getElem?_set_ne hjk, hj], rfl, id⟩
  · intro ticket hmem hreply
    obtain rfl | hmem := mem_set_cases hmem
    · exact hgranted (Option.some.inj hreply)
    · exact hcovered _ (h.tickets ticket hmem hreply)

/-- **The invariant of every step.** -/
theorem World.Step.safe {w w' : World} (h : w.Safe me key) (hstep : w.Step sha256 me key w') :
    w'.Safe me key := by
  cases hstep with
  | tick d =>
    refine ⟨h.valid, h.time.trans (Nat.le_add_right _ _), ?_⟩
    exact h.session.view (fun _ _ hd => hd) id (Nat.le_add_right _ _) rfl
  | readClock =>
    refine ⟨h.valid, Nat.le_refl _, ?_⟩
    exact h.session.view (fun _ _ hd => hd.later h.time) id (Nat.le_refl _) rfl
  | broker hop hother =>
    refine ⟨Ledger.step_valid h.valid sha256 _, h.time, ?_⟩
    exact h.session.view (fun _ _ hd => hd.op h.valid hop) (fun hu => hu.op h.valid hother)
      (Nat.le_refl _) rfl
  | reopen hexec =>
    obtain ⟨hvalid, hgeneration, hdrained⟩ := restart_drains hexec
    refine ⟨hvalid, h.time, ?_⟩
    exact h.session.view (fun _ _ hd => hd.restarted hgeneration hdrained)
      (fun hu => hu.restarted hexec) (Nat.le_refl _) rfl
  | request hidle =>
    have hsession := h.session
    rw [hidle] at hsession
    exact ⟨h.valid, h.time, hsession⟩
  | @admission sent binding reservations credits random token l hacquiring hreceived hexec =>
    have hsession := h.session
    rw [hacquiring] at hsession
    obtain ⟨-, -, old, hold, howner, hrequest, -⟩ | ⟨hfresh, -⟩ :=
      (Ledger.spec_admitReusingRetained ..).of_ok hexec
    · exact absurd ⟨howner, hrequest⟩ (hsession.1 old hold)
    · refine ⟨hfresh.valid, h.time, ?_, hsession.2⟩
      exact Covered.of_fresh h.valid hfresh (Nat.add_le_add_right hreceived _)
        (Nat.add_le_add_right hreceived _)
  | refuse _ => exact ⟨h.valid, h.time, trivial⟩
  | acquired hacquiring _ =>
    have hsession := h.session
    rw [hacquiring] at hsession
    have htickets : w.tickets = [] := hsession.2
    refine ⟨h.valid, h.time, hsession.1, fun ticket hmem _ => ?_, trivial, ?_, ?_, ?_⟩
    · have hmem : ticket ∈ w.tickets := hmem
      rw [htickets] at hmem
      cases hmem
    · intro c hc
      cases hc
    · intro hc
      cases hc
    · intro t k hc
      cases hc
  | @renew live k sent l hlive hticket hreceived hexec =>
    have hsession := h.session
    rw [hlive] at hsession
    have hsafe : LiveSafe w.view live := hsession
    have hquiet := (Ledger.spec_renew h.valid ..).of_ok hexec
    refine ⟨hquiet.valid, h.time, ?_⟩
    dsimp only
    rw [hlive]
    refine hsafe.answer hticket (fun d hd => ?_) fun _ => ?_
    · rw [← @step_of_renew sha256 _ _ _ _ _ _ hexec]
      refine hd.op h.valid fun asked hasked => ?_
      exact (Option.some.inj hasked).symm
    · exact Covered.of_renewed h.valid hexec hsafe.deadline.known
        (Nat.add_le_add_right hreceived _) (Nat.add_le_add_right hreceived _)
  | @deny k sent hticket =>
    refine ⟨h.valid, h.time, ?_⟩
    have hsession := h.session
    dsimp only [World.view] at hsession ⊢
    cases hs : w.session with
    | idle =>
      rw [hs] at hsession
      have htickets : w.tickets = [] := hsession.2
      rw [htickets] at hticket
      cases hticket
    | acquiring since granted =>
      rw [hs] at hsession
      have htickets : w.tickets = [] := by
        cases granted with
        | none | some token => exact hsession.2
      rw [htickets] at hticket
      cases hticket
    | refused => trivial
    | live live =>
      rw [hs] at hsession
      exact LiveSafe.answer (v := w.view) hsession hticket (fun _ hd => hd) fun hf => by cases hf
  | worker hlive hlivestep =>
    have hsession := h.session
    rw [hlive] at hsession
    exact ⟨h.valid, h.time, Live.Step.safe (v := w.view) hsession hlivestep⟩

theorem World.Reachable.safe {w : World} (h : w.Reachable sha256 me key) : w.Safe me key := by
  obtain ⟨w₀, hinit, hsteps⟩ := h
  induction hsteps with
  | refl =>
    refine ⟨hinit.valid, hinit.time, ?_⟩
    rw [hinit.session]
    exact ⟨hinit.unseen, hinit.tickets⟩
  | tail _ hstep ih => exact hstep.safe ih

theorem World.Reachable.steps {w w' : World} (h : w.Reachable sha256 me key)
    (hsteps : World.Steps sha256 me key w w') : w'.Reachable sha256 me key := by
  obtain ⟨w₀, hinit, hbefore⟩ := h
  exact ⟨w₀, hinit, hbefore.trans hsteps⟩

/-! ## What a run leaves of the past -/

/-- A worker `w` with `n` requests sent so far, and the same worker later, with `n'`. A check is
begun later when its index is new. -/
structure Since (n : Nat) (w : Live) (n' : Nat) (w' : Live) : Prop where
  token : w'.token = w.token
  checks : w.checks.length ≤ w'.checks.length
  tickets : n ≤ n'
  failed : w.failed = true → w'.failed = true ∧ ∀ (i : Nat) c, w.checks.length ≤ i →
    w'.checks[i]? = some c → c.acceptedAt = none ∧ ∀ t, c ≠ .unfailed t
  finished : w.beat = .finished → w'.beat = .finished ∧ ∀ (i : Nat) c, w.checks.length ≤ i →
    w'.checks[i]? = some c → c.acceptedAt = none
  ended : w.beat = .failing ∨ w.beat = .finished →
    (w'.beat = .failing ∨ w'.beat = .finished) ∧ w'.deadline = w.deadline
  own : ∀ i t k, w.checks.length ≤ i →
    w'.checks[i]? = some (.renewing t k) ∨ w'.checks[i]? = some (.renewed t k) → n ≤ k

theorem Since.refl (n : Nat) (w : Live) : Since n w n w where
  token := rfl
  checks := Nat.le_refl _
  tickets := Nat.le_refl _
  failed h := ⟨h, fun i c hi hc => by rw [List.getElem?_eq_none hi] at hc; cases hc⟩
  finished h := ⟨h, fun i c hi hc => by rw [List.getElem?_eq_none hi] at hc; cases hc⟩
  ended h := ⟨h, rfl⟩
  own i t k hi hc := by
    rw [List.getElem?_eq_none hi] at hc
    obtain hc | hc := hc
    · cases hc
    · cases hc

theorem getElem?_set_cases {α : Type} {xs : List α} {i j : Nat} {x y : α}
    (h : (xs.set i x)[j]? = some y) : j = i ∧ y = x ∨ xs[j]? = some y := by
  by_cases hij : i = j
  · subst hij
    by_cases hlt : i < xs.length
    · rw [List.getElem?_set_self hlt] at h
      exact .inl ⟨rfl, (Option.some.inj h).symm⟩
    · rw [List.getElem?_eq_none (by rw [List.length_set]; omega)] at h
      cases h
  · rw [List.getElem?_set_ne hij] at h
    exact .inr h

theorem getElem?_concat_cases {α : Type} {xs : List α} {j : Nat} {x y : α}
    (h : (xs ++ [x])[j]? = some y) : y = x ∨ xs[j]? = some y := by
  rw [List.getElem?_append] at h
  split at h
  · exact .inr h
  · obtain rfl := List.mem_singleton.mp (List.mem_of_getElem? h)
    exact .inl rfl

section Since

variable {clock n n' : Nat} {tickets tickets' : List Ticket} {w w₁ w₂ : Live}

/-- A heartbeat step never leaves a failure. -/
theorem BeatStep.ended {failed : Bool} {b b' : Beat} (h : BeatStep clock tickets failed b b') :
    ¬(b = .failing ∨ b = .finished) := by
  cases h <;> simp

/-- A check that changed: what a check begun later can have become. -/
theorem Since.check (h : Since n w n' w₁) {i : Nat} {c c' : Check} (hc : w₁.checks[i]? = some c)
    (hfailed : w₁.failed = true → c.acceptedAt = none → (∀ t, c ≠ .unfailed t) →
      c'.acceptedAt = none ∧ ∀ t, c' ≠ .unfailed t)
    (hfinished : w₁.beat = .finished → c.acceptedAt = none → c'.acceptedAt = none)
    (hown : ∀ t k, c' = .renewing t k ∨ c' = .renewed t k → c = .renewing t k ∨ n ≤ k)
    {m : Nat} (hm : n' ≤ m) : Since n w m { w₁ with checks := w₁.checks.set i c' } where
  token := h.token
  checks := by
    dsimp only
    rw [List.length_set]
    exact h.checks
  tickets := h.tickets.trans hm
  failed hf := by
    obtain ⟨hstill, hnew⟩ := h.failed hf
    refine ⟨hstill, fun j d hj hd => ?_⟩
    obtain ⟨rfl, rfl⟩ | hd := getElem?_set_cases hd
    · obtain ⟨haccepted, hunfailed⟩ := hnew _ c hj hc
      exact hfailed hstill haccepted hunfailed
    · exact hnew j d hj hd
  finished hf := by
    obtain ⟨hstill, hnew⟩ := h.finished hf
    refine ⟨hstill, fun j d hj hd => ?_⟩
    obtain ⟨rfl, rfl⟩ | hd := getElem?_set_cases hd
    · exact hfinished hstill (hnew _ c hj hc)
    · exact hnew j d hj hd
  ended := h.ended
  own j t k hj hd := by
    have hcases : (j = i ∧ (c' = .renewing t k ∨ c' = .renewed t k)) ∨
        w₁.checks[j]? = some (.renewing t k) ∨ w₁.checks[j]? = some (.renewed t k) := by
      obtain hd | hd := hd
      · obtain ⟨hji, he⟩ | hd := getElem?_set_cases hd
        · exact .inl ⟨hji, .inl he.symm⟩
        · exact .inr (.inl hd)
      · obtain ⟨hji, he⟩ | hd := getElem?_set_cases hd
        · exact .inl ⟨hji, .inr he.symm⟩
        · exact .inr (.inr hd)
    obtain ⟨rfl, he⟩ | hd := hcases
    · obtain rfl | hle := hown t k he
      · exact h.own _ t k hj (.inl hc)
      · exact hle
    · exact h.own j t k hj hd

/-- **What one step of the worker leaves of the past.** -/
theorem Since.step (h : Since n w tickets.length w₁) (hstep : w₁.Step clock tickets tickets' w₂) :
    Since n w tickets'.length w₂ := by
  cases hstep with
  | beat hbeat =>
    refine { h with finished := fun hf => ?_, ended := fun hf => absurd (h.ended hf).1 hbeat.ended }
    exact absurd (.inr (h.finished hf).1) hbeat.ended
  | beatRequest hb =>
    refine { h with tickets := ?_, finished := fun hf => ?_, ended := fun hf => ?_ }
    · rw [List.length_append]
      exact h.tickets.trans (Nat.le_add_right _ _)
    · have hended := (h.finished hf).1
      rw [hb] at hended
      cases hended
    · have hended := (h.ended hf).1
      rw [hb] at hended
      obtain hended | hended := hended
      · cases hended
      · cases hended
  | store hb =>
    refine { h with finished := fun hf => ?_, ended := fun hf => ?_ }
    · have hended := (h.finished hf).1
      rw [hb] at hended
      cases hended
    · have hended := (h.ended hf).1
      rw [hb] at hended
      obtain hended | hended := hended
      · cases hended
      · cases hended
  | fail _ =>
    exact { h with
      failed := fun hf => ⟨rfl, (h.failed hf).2⟩
      finished := fun hf => ⟨rfl, (h.finished hf).2⟩
      ended := fun hf => ⟨.inr rfl, (h.ended hf).2⟩ }
  | begin =>
    refine { h with checks := ?_, failed := fun hf => ?_, finished := fun hf => ?_, own := ?_ }
    · rw [List.length_append]
      exact h.checks.trans (Nat.le_add_right _ _)
    · refine ⟨(h.failed hf).1, fun i c hi hc => ?_⟩
      obtain rfl | hc := getElem?_concat_cases hc
      · exact ⟨rfl, by simp⟩
      · exact (h.failed hf).2 i c hi hc
    · refine ⟨(h.finished hf).1, fun i c hi hc => ?_⟩
      obtain rfl | hc := getElem?_concat_cases hc
      · rfl
      · exact (h.finished hf).2 i c hi hc
    · intro i t k hi hc
      refine h.own i t k hi (hc.imp (fun hc => ?_) fun hc => ?_)
      · exact (getElem?_concat_cases hc).resolve_left (by simp)
      · exact (getElem?_concat_cases hc).resolve_left (by simp)
  | check hc hcheck =>
    refine h.check hc (fun hf ha hu => ?_) (fun hf ha => ?_) (fun t k he => ?_) (Nat.le_refl _)
    · cases hcheck with
      | clear hopen =>
        rw [hf] at hopen
        cases hopen
      | running _ => exact absurd rfl (hu _)
      | unsent _ => cases ha
      | acknowledged _ => cases ha
      | unacknowledged _ _ => cases ha
      | read | noClock | early _ | late _ | flagged _ | ended _ => exact ⟨rfl, by simp⟩
    · cases hcheck with
      | running hrunning => exact absurd hf hrunning
      | unsent _ => cases ha
      | acknowledged _ => cases ha
      | unacknowledged _ _ => cases ha
      | read => rfl
      | noClock => rfl
      | early _ => rfl
      | late _ => rfl
      | clear _ => rfl
      | flagged _ => rfl
      | ended _ => rfl
    · obtain rfl | rfl := he
      · cases hcheck
      · cases hcheck with
        | acknowledged _ => exact .inl rfl
  | checkRequest hc =>
    refine h.check hc (fun _ ha _ => (by cases ha)) (fun _ ha => (by cases ha)) (fun t k he => ?_) ?_
    · obtain he | he := he
      · cases he
        exact .inr h.tickets
      · cases he
    · rw [List.length_append]
      exact Nat.le_add_right _ _
  | @fence i hc =>
    have hset : Since n w tickets.length { w₁ with checks := w₁.checks.set i .failed } :=
      h.check hc (fun _ _ _ => ⟨rfl, by simp⟩) (fun _ _ => rfl)
        (fun t k he => by obtain he | he := he <;> cases he) (Nat.le_refl _)
    exact { hset with failed := fun hf => ⟨rfl, (hset.failed hf).2⟩ }

end Since

/-- The broker and the clock leave the worker alone. -/
theorem World.Step.since {w w' : World} (hstep : w.Step sha256 me key w') {live : Live}
    (h : w.session = .live live) {n : Nat} {live₀ : Live}
    (hsince : Since n live₀ w.tickets.length live) :
    ∃ live', w'.session = .live live' ∧ Since n live₀ w'.tickets.length live' := by
  cases hstep with
  | tick d | readClock | broker _ _ | reopen _ => exact ⟨live, h, hsince⟩
  | request hs | admission hs _ _ | refuse hs | acquired hs _ =>
    rw [h] at hs
    cases hs
  | renew _ _ _ _ | deny _ =>
    refine ⟨live, h, ?_⟩
    dsimp only
    rw [List.length_set]
    exact hsince
  | worker hs hlive =>
    rw [h] at hs
    cases hs
    exact ⟨_, rfl, hsince.step hlive⟩

theorem World.Steps.since {w w' : World} (hsteps : World.Steps sha256 me key w w') {live : Live}
    (h : w.session = .live live) :
    ∃ live', w'.session = .live live' ∧ Since w.tickets.length live w'.tickets.length live' := by
  induction hsteps with
  | refl => exact ⟨live, h, Since.refl _ _⟩
  | tail _ hstep ih =>
    obtain ⟨_, hsession, hsince⟩ := ih
    exact hstep.since hsession hsince

/-- **A worker's local check never outlives the broker's lease deadline.** In every reachable world,
where a check has accepted the time `t` the lease of the worker's token is no longer active or has a
deadline after `t`. From there on, whatever is still to be acknowledged: once a check has failed or
the heartbeat ended, every check begun later fails; once a renewal of the heartbeat has failed, the
local deadline stays what it was; and a check that returns was acknowledged for a request sent after
it began. -/
theorem local_check_within_lease (sha256 : Bytes → Vector UInt8 32) (me : Owner) (key : String)
    (w : World) (h : w.Reachable sha256 me key) (live : Live) (hlive : w.session = .live live) :
    (∀ c ∈ live.checks, ∀ t, c.acceptedAt = some t → ∀ lease ∈ w.ledger.leases,
      lease.token = live.token → lease.state = .active → t < lease.deadlineMs) ∧
    ∀ w', World.Steps sha256 me key w w' → ∃ live', w'.session = .live live' ∧
      live'.token = live.token ∧
      (.failed ∈ live.checks ∨ live.failed = true ∨ live.beat = .finished →
        ∀ (i : Nat) c, live.checks.length ≤ i → live'.checks[i]? = some c → c.acceptedAt = none) ∧
      (live.beat = .failing ∨ live.beat = .finished → live'.deadline = live.deadline) ∧
      ∀ i t k, live.checks.length ≤ i → live'.checks[i]? = some (.renewed t k) →
        w.tickets.length ≤ k ∧ ∃ sent, w'.tickets[k]? = some ⟨sent, some true⟩ := by
  have hsession := h.safe.session
  rw [hlive] at hsession
  have hsafe : LiveSafe w.view live := hsession
  refine ⟨fun c hc t ht lease hlease htoken hactive => ?_, fun w' hsteps => ?_⟩
  · have htrusted : c.trusted = some t := by
      cases c <;> first | exact ht | cases ht
    obtain ⟨d, hlt, hcovered⟩ := hsafe.checks c hc t htrusted
    exact hlt.trans_le (hcovered.lease lease hlease htoken hactive)
  · obtain ⟨live', hlive', hsince⟩ := hsteps.since hlive
    have hsession' := (h.steps hsteps).safe.session
    rw [hlive'] at hsession'
    have hsafe' : LiveSafe w'.view live' := hsession'
    have hacked : ∀ (i : Nat) t k, live'.checks[i]? = some (.renewed t k) →
        ∃ sent, w'.tickets[k]? = some ⟨sent, some true⟩ := by
      intro i t k hc
      obtain ⟨⟨sent, reply⟩, hticket, rfl⟩ := hsafe'.acked t k (List.mem_of_getElem? hc)
      exact ⟨sent, hticket⟩
    refine ⟨live', hlive', hsince.token, fun hlost i c hi hc => ?_,
      fun hended => (hsince.ended hended).2,
      fun i t k hi hc => ⟨hsince.own i t k hi (.inr hc), hacked i t k hc⟩⟩
    obtain hfailed | hfailed | hfinished := hlost
    · exact ((hsince.failed (hsafe.failed hfailed)).2 i c hi hc).1
    · exact ((hsince.failed hfailed).2 i c hi hc).1
    · exact (hsince.finished hfinished).2 i c hi hc

/-! ### One accepted check -/

/-- A manager has just started. -/
def sampleStarted : Ledger :=
  Ledger.run (fun _ => Vector.replicate 32 0) Ledger.empty
    [.restart "manager-1" Ledger.sampleInventory]

/-- It admits a lease at tick 6. -/
def sampleAdmitted : Ledger :=
  (Mut.exec (Ledger.admitReusingRetained Ledger.sampleOwner "request-1" (repeatText "a" 64)
    [⟨"ram", 40, 30⟩] 6 10006 ∅ (.ok (Vector.replicate 16 7))) sampleStarted).2

/-- The worker, which asked at tick 5, has accepted tick 7. -/
def sampleWorker : World where
  clock := 7
  time := 6
  ledger := sampleAdmitted
  tickets := []
  session := .live ⟨Ledger.sampleToken, 10005, false, .waiting, [.accepted 7]⟩

theorem local_check_within_lease_at_seven :
    sampleAdmitted.leases.map (·.deadlineMs) = [10006] ∧
      sampleAdmitted.leases.Forall fun lease =>
        lease.token = Ledger.sampleToken → lease.state = .active → 7 < lease.deadlineMs := by
  have hreachable : sampleWorker.Reachable (fun _ => Vector.replicate 32 0) Ledger.sampleOwner
      "request-1" := by
    have hadmission : Mut.exec (Ledger.admitReusingRetained Ledger.sampleOwner "request-1"
        (repeatText "a" 64) [⟨"ram", 40, 30⟩] 6 10006 ∅ (.ok (Vector.replicate 16 7)))
        sampleStarted = (.ok Ledger.sampleToken, sampleAdmitted) :=
      Prod.ext (by decide +kernel) rfl
    refine ⟨⟨5, 0, sampleStarted, [], .idle⟩, ⟨?_, ?_, by decide, rfl, rfl⟩, ?_⟩
    · exact Ledger.run_valid Ledger.valid_empty _ _
    · have hnone : sampleStarted.leases = [] := by decide +kernel
      intro x hx
      rw [hnone] at hx
      cases hx
    · refine .head (.request rfl) (.head (.tick 1) (.head .readClock ?_))
      refine .head (.admission rfl (by decide) hadmission) (.head (.tick 1) ?_)
      refine .head (.acquired rfl (by decide)) (.head (.worker rfl .begin) ?_)
      refine .head (.worker rfl (.check (i := 0) rfl .read)) ?_
      refine .head (.worker rfl (.check (i := 0) rfl (.early (by decide)))) ?_
      refine .head (.worker rfl (.check (i := 0) rfl (.clear rfl))) ?_
      exact .single (.worker rfl (.check (i := 0) rfl (.running (by decide))))
  refine ⟨by decide +kernel, List.forall_iff_forall_mem.mpr ?_⟩
  exact (local_check_within_lease _ _ _ sampleWorker hreachable _ rfl).1 (.accepted 7)
    List.mem_cons_self 7 rfl

end LumaOS.Resources
