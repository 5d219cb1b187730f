import LumaOS.Workflow.DagRuns

/-!
# Reviews that are honoured as a replay

`Store::replayed_review` (`workflow_dag.rs:1027-1064`) decides what a review digest means for a
loaded run: the current checkpoint, a call that was already acknowledged, or nothing. It compares
ordinals; what the differences mean is read off the language of chains: one is the event before the
last (`precedesLast_iff`), two is a completed write with its own call behind it (`completesTo_iff`).

**`replayed_review_exact`** says which reviews are honoured.
-/

namespace LumaOS.Workflow

open LumaOS.Base LumaOS.Text LumaOS.Json

section Model

variable (O : Outside)

/-- `hash(&(plan, event))`. -/
def reviewOf (plan : Plan) (event : Event) : String := O.hash (.array [plan.toJson, event.toJson])

/-- The `terminal` of `replayed_review`. -/
def terminal (store : Store) (run : Run) (prior : Event) (cancel : Bool) : Result Bool := do
  let difference ← okOr (if prior.ordinal ≤ run.event.ordinal then
    some (run.event.ordinal - prior.ordinal) else none) "DAG replay ordinal regression"
  if cancel then pure (run.event.phase == .cancelled && difference == 1)
  else if run.event.phase != .completed then pure false
  else if difference == 1 then pure true
  else if difference != 2 then pure false
  else do
    let graph ← run.plan.validate O store.installation
    let node ← graph.node run.event.node
    pure (node.kind == .artifactWrite)

/-- The loop of `replayed_review` over the rows. -/
def replayedRow (store : Store) (run : Run) (review : String) (cancel : Bool) :
    List (Nat × String) → Result Bool
  | [] => refuse "DAG review does not name a retained checkpoint"
  | row :: rows => do
    let prior ← ofForeign (O.parseEvent row.2)
    if reviewOf O run.plan prior != review then replayedRow store run review cancel rows
    else do
      let acknowledged ← terminal O store run prior cancel
      refuseIf (!acknowledged) "DAG stale review is not the exact acknowledged transition"
      pure true

/-- `Store::replayed_review`. -/
def Store.replayedReview (store : Store) (db : Db) (run : Run) (review : String) (cancel : Bool) :
    Result Bool := do
  if reviewOf O run.plan run.event == review then pure false
  else do
    let rows ← db.selectChain run.plan.proposal.requestId
    replayedRow O store run review cancel rows

/-- The events of a run as its rows spell them. -/
def Db.history (db : Db) (request : String) : List Event :=
  (db.chain request).filterMap fun row => (O.parseEvent row.2).toOption

end Model

/-! ## Predecessors -/

/-- The event is the immediate predecessor of the last one. -/
def PrecedesLast (events : List Event) (e : Event) : Prop :=
  ∃ past last, events = past ++ [e, last]

/-- **Completing one node leads from the event to the last one**: directly, or through the `Applying`
event of that node. -/
inductive CompletesTo (events : List Event) (e : Event) : Prop
  | directly (h : PrecedesLast events e)
  | applying (past : List Event) (opened last : Event) (h : events = past ++ [e, opened, last])
      (phase : opened.phase = .applying) (node : opened.node = last.node)

variable {O : Outside} {store : Store} {objects : Objects} {db : Db} {request : String} {run : Run}
  {x : Executable} {events : List Event} {cursor : Nat} {e last : Event}

theorem history_eq (hrows : db.chain request = events.map Event.row) (hr : Recorded O events) :
    db.history O request = events := by
  rw [Db.history, hrows, List.filterMap_map]
  have hsome : ∀ e ∈ events, ((fun row : Nat × String => (O.parseEvent row.2).toOption) ∘
      Event.row) e = some e := fun e he => by
    rw [Function.comp_apply, Event.row, hr.parsed e he]
    rfl
  rw [List.filterMap_congr hsome, List.filterMap_some]

/-- The ordinal is the position. -/
theorem Recorded.ordinal (hr : Recorded O events) {i : Nat} (h : events[i]? = some e) :
    e.ordinal = i := by
  have hget := congrArg (·[i]?) hr.numbered
  simp only [List.getElem?_map, h, Option.map_some] at hget
  have hi : i < events.length := (List.getElem?_eq_some_iff.mp h).1
  rw [List.getElem?_range hi] at hget
  exact Option.some.inj hget

theorem exists_position (he : e ∈ events) (hr : Recorded O events) :
    events[e.ordinal]? = some e := by
  obtain ⟨i, hi⟩ := List.mem_iff_getElem?.mp he
  rw [hr.ordinal hi]
  exact hi

theorem ordinal_middle {past rest : List Event} (hr : Recorded O (past ++ e :: rest)) :
    e.ordinal = past.length :=
  hr.ordinal (by rw [List.getElem?_append_right (Nat.le_refl _), Nat.sub_self]; rfl)

theorem last_eq {past : List Event} {a : Event} (hlast : (past ++ [a]).getLast? = some last) :
    a = last := by
  rw [List.getLast?_concat] at hlast
  exact Option.some.inj hlast

/-- **One ordinal apart.** -/
theorem precedesLast_iff (hr : Recorded O events) (hlast : events.getLast? = some last)
    (he : e ∈ events) : PrecedesLast events e ↔ last.ordinal = e.ordinal + 1 := by
  constructor
  · rintro ⟨past, l, rfl⟩
    obtain rfl : l = last := (@last_eq _ (past ++ [e])) (by simpa using hlast)
    have hl : l.ordinal = (past ++ [e]).length := (@ordinal_middle _ _ _ []) (by simpa using hr)
    rw [hl, ordinal_middle hr, List.length_append, List.length_singleton]
  · intro h
    obtain ⟨init, rfl⟩ := List.getLast?_eq_some_iff.mp hlast
    have hlength : last.ordinal = init.length := (@ordinal_middle _ _ _ []) hr
    rcases List.eq_nil_or_concat init with rfl | ⟨past, a, rfl⟩
    · rw [List.length_nil] at hlength
      omega
    · rw [List.concat_eq_append] at *
      have hpos := exists_position he hr
      rw [List.length_append, List.length_singleton] at hlength
      have hordinal : e.ordinal = past.length := by omega
      rw [hordinal, List.append_assoc, List.getElem?_append_right (Nat.le_refl _),
        Nat.sub_self] at hpos
      obtain rfl : a = e := Option.some.inj hpos
      exact ⟨past, last, by simp⟩

/-! ## The last completion -/

theorem mem_steps {id node : String} {phase : Phase} (h : (phase, node) ∈ x.steps id) :
    node = id ∧ (phase = .applying → x.writes id = true) := by
  unfold Executable.steps at h
  split at h
  · rename_i hwrites
    refine ⟨?_, fun _ => hwrites⟩
    simp only [List.mem_cons, Prod.mk.injEq, List.not_mem_nil, or_false] at h
    rcases h with ⟨-, rfl⟩ | ⟨-, rfl⟩ <;> rfl
  · simp only [List.mem_singleton, Prod.mk.injEq] at h
    obtain ⟨rfl, rfl⟩ := h
    exact ⟨rfl, fun h => by cases h⟩

/-- Only nodes that write artifacts are ever applied. -/
theorem Executable.Follows.writes (h : x.Follows events cursor) (he : e ∈ events)
    (hphase : e.phase = .applying) : x.writes e.node = true := by
  obtain ⟨-, ⟨l, tail, -, hending, hlabels⟩, -⟩ := h
  have hmem : (Phase.applying, e.node) ∈ events.map Event.label := by
    rw [← hphase]
    exact List.mem_map_of_mem he
  rw [hlabels, List.mem_append, List.mem_cons, List.mem_flatMap] at hmem
  rcases hmem with (hmem | ⟨id, -, hmem⟩) | hmem
  · cases hmem
  · obtain ⟨hid, hwrites⟩ := mem_steps hmem
    exact hid ▸ hwrites rfl
  · generalize l.phase = phase at hending
    cases hending with
    | prepared => cases hmem
    | completed => cases hmem
    | applying node hnode hwrites =>
      obtain ⟨-, rfl⟩ := Prod.mk.inj (List.mem_singleton.mp hmem)
      exact hwrites
    | cancelled => cases List.mem_singleton.mp hmem

/-- **A chain that ends with a completion** ends with the steps of that node. -/
theorem Executable.Follows.completed (h : x.Follows events cursor)
    (hlast : events.getLast? = some last) (hphase : last.phase = .completed) :
    ∃ labels, events.map Event.label = (.prepared, "") :: labels ++ x.steps last.node := by
  obtain ⟨hbounded, ⟨l, tail, hl, hending, hlabels⟩, -⟩ := h
  obtain rfl : l = last := Option.some.inj (hl.symm.trans hlast)
  rw [hphase] at hending
  cases hending with
  | completed hpos =>
    obtain ⟨n, rfl⟩ : ∃ n, cursor = n + 1 := ⟨cursor - 1, by omega⟩
    have hnode : x.order[n]? = some x.order[n] := List.getElem?_eq_getElem (by omega)
    rw [List.append_nil, List.take_add_one, hnode, Option.toList_some, List.flatMap_append,
      List.flatMap_singleton] at hlabels
    -- the last label is the last event's
    have hlabel : (events.map Event.label).getLast? = some l.label := by
      rw [List.getLast?_map, hl, Option.map_some]
    have hsteps : (x.steps x.order[n]).getLast? = some (Phase.completed, x.order[n]) := by
      unfold Executable.steps
      split <;> rfl
    rw [hlabels, ← List.cons_append, List.getLast?_append, hsteps, Option.some_or,
      Option.some.injEq] at hlabel
    have hsame : x.order[n] = l.node := congrArg Prod.snd hlabel
    rw [hsame] at hlabels
    exact ⟨_, hlabels⟩

/-- **Two ordinals apart.** -/
theorem completesTo_iff (hf : x.Follows events cursor) (hr : Recorded O events)
    (hlast : events.getLast? = some last) (hphase : last.phase = .completed) (he : e ∈ events) :
    CompletesTo events e ↔ last.ordinal = e.ordinal + 1 ∨
      (last.ordinal = e.ordinal + 2 ∧ x.writes last.node = true) := by
  constructor
  · intro h
    cases h with
    | directly h => exact .inl ((precedesLast_iff hr hlast he).mp h)
    | applying past opened l hevents hopened hnode =>
      subst hevents
      obtain rfl : l = last := (@last_eq _ (past ++ [e, opened])) (by simpa using hlast)
      have hl : l.ordinal = (past ++ [e, opened]).length :=
        (@ordinal_middle _ _ _ []) (by simpa using hr)
      refine .inr ⟨?_, hnode ▸ hf.writes (by simp) hopened⟩
      rw [hl, ordinal_middle hr, List.length_append]
      rfl
  · rintro (h | ⟨h, hwrites⟩)
    · exact .directly ((precedesLast_iff hr hlast he).mpr h)
    · obtain ⟨labels, hlabels⟩ := hf.completed hlast hphase
      rw [Executable.steps, if_pos hwrites] at hlabels
      obtain ⟨first, rest, rfl, hfirst, hrest⟩ := List.map_eq_append_iff.mp hlabels
      obtain ⟨opened, tail, rfl, hopened, htail⟩ := List.map_eq_cons_iff.mp hrest
      obtain ⟨l, nothing, rfl, hl, hnothing⟩ := List.map_eq_cons_iff.mp htail
      obtain rfl := List.map_eq_nil_iff.mp hnothing
      obtain rfl : l = last := (@last_eq _ (first ++ [opened])) (by simpa using hlast)
      rcases List.eq_nil_or_concat first with rfl | ⟨past, a, rfl⟩
      · cases hfirst
      · rw [List.concat_eq_append] at *
        have hl : l.ordinal = (past ++ [a] ++ [opened]).length :=
          (@ordinal_middle _ _ _ []) (by simpa using hr)
        have hpos := exists_position he hr
        have hordinal : e.ordinal = past.length := by
          simp only [List.length_append, List.length_singleton] at hl
          omega
        rw [hordinal, List.append_assoc, List.getElem?_append_right (Nat.le_refl _),
          Nat.sub_self] at hpos
        obtain rfl : a = e := Option.some.inj hpos
        exact .applying past opened l (by simp) (congrArg Prod.fst hopened)
          (congrArg Prod.snd hopened)

/-! ## The decision -/

theorem terminal_cancel {prior : Event} : terminal O store run prior true = .ok true ↔
    run.event.phase = .cancelled ∧ run.event.ordinal = prior.ordinal + 1 := by
  simp only [terminal, bind_eq_ok, okOr_eq_ok, if_true, pure_eq_ok, Bool.and_eq_true, beq_iff_eq,
    Option.ite_none_right_eq_some, Option.some.injEq]
  constructor
  · rintro ⟨_, ⟨hle, rfl⟩, hphase, hdifference⟩
    exact ⟨hphase, by omega⟩
  · rintro ⟨hphase, hordinal⟩
    exact ⟨_, ⟨by omega, rfl⟩, hphase, by omega⟩

theorem terminal_advance {prior : Event} (hvalid : run.plan.validate O store.installation = .ok x) :
    terminal O store run prior false = .ok true ↔ run.event.phase = .completed ∧
      (run.event.ordinal = prior.ordinal + 1 ∨
        (run.event.ordinal = prior.ordinal + 2 ∧ x.writes run.event.node = true)) := by
  have hwrites : x.writes run.event.node = true ↔
      ∃ node, x.node run.event.node = .ok node ∧ (node.kind == .artifactWrite) = true := by
    unfold Executable.writes
    cases x.node run.event.node with
    | error stop => simp
    | ok node => simp
  simp only [terminal, bind_eq_ok, okOr_eq_ok, Bool.false_eq_true, if_false,
    Option.ite_none_right_eq_some, Option.some.injEq]
  constructor
  · rintro ⟨difference, ⟨hle, hdifference⟩, h⟩
    split at h
    · cases h
    · rename_i hphase
      refine ⟨by simpa using hphase, ?_⟩
      split at h
      · rename_i hone
        rw [beq_iff_eq] at hone
        exact .inl (by omega)
      · split at h
        · cases h
        · rename_i htwo
          rw [Bool.not_eq_true, bne_eq_false_iff_eq] at htwo
          simp only [hvalid, bind_eq_ok, pure_eq_ok] at h
          obtain ⟨graph, hgraph, node, hnode, hkind⟩ := h
          obtain rfl : x = graph := Except.ok.inj hgraph
          exact .inr ⟨by omega, hwrites.mpr ⟨node, hnode, hkind⟩⟩
  · rintro ⟨hphase, hordinal⟩
    refine ⟨run.event.ordinal - prior.ordinal, ⟨by omega, rfl⟩, ?_⟩
    rw [if_neg (by simp [hphase])]
    rcases hordinal with hone | ⟨htwo, hw⟩
    · rw [if_pos (by rw [beq_iff_eq]; omega)]
      rfl
    · obtain ⟨node, hnode, hkind⟩ := hwrites.mp hw
      rw [if_neg (by rw [beq_iff_eq]; omega), if_neg (by rw [bne_iff_ne]; omega), hvalid]
      simp only [bind_eq_ok, pure_eq_ok]
      exact ⟨x, rfl, node, hnode, hkind⟩

theorem noPanic_terminal {prior : Event} {cancel : Bool}
    (hvalid : run.plan.validate O store.installation = .ok x) :
    NoPanic (terminal O store run prior cancel) := by
  have hnode : ∀ id, NoPanic (x.node id) := fun id => noPanic_okOr _ _
  unfold terminal
  rw [hvalid]
  have hrest : NoPanic ((Except.ok x : Result Executable) >>= fun graph => do
      let node ← graph.node run.event.node
      pure (node.kind == .artifactWrite)) :=
    noPanic_bind (noPanic_ok x) fun graph hgraph => by
      obtain rfl : x = graph := Except.ok.inj hgraph
      exact noPanic_bind (hnode _) fun _ _ => noPanic_pure _
  infer_instance

/-- The loop stops at the first row that the review names. -/
theorem replayedRow_eq {review : String} {cancel : Bool} : ∀ {events : List Event},
    (∀ e ∈ events, O.parseEvent e.canonical = .ok e) →
      replayedRow O store run review cancel (events.map Event.row) =
        match events.find? fun e => reviewOf O run.plan e == review with
        | none => refuse "DAG review does not name a retained checkpoint"
        | some e => do
          let acknowledged ← terminal O store run e cancel
          refuseIf (!acknowledged) "DAG stale review is not the exact acknowledged transition"
          pure true
  | [], _ => rfl
  | e :: events, h => by
    obtain ⟨he, hrest⟩ := List.forall_mem_cons.mp h
    have hread : ofForeign (O.parseEvent e.canonical) = .ok e := by rw [he]; rfl
    rw [List.map_cons, replayedRow, show e.row.2 = e.canonical from rfl, hread, List.find?_cons]
    change (if reviewOf O run.plan e != review then
      replayedRow O store run review cancel (events.map Event.row) else _) = _
    by_cases hname : reviewOf O run.plan e = review
    · rw [if_neg (by simp [hname])]
      simp [hname]
    · have hother : (reviewOf O run.plan e == review) = false := beq_eq_false_iff_ne.mpr hname
      rw [if_pos (by simpa using hname), replayedRow_eq hrest, hother]

/-- What the call comes to, once the rows are read. -/
def Decides (O : Outside) (store : Store) (run : Run) (events : List Event) (review : String)
    (cancel : Bool) : Result Bool :=
  if reviewOf O run.plan run.event == review then pure false
  else match events.find? fun e => reviewOf O run.plan e == review with
    | none => refuse "DAG review does not name a retained checkpoint"
    | some e => do
      let acknowledged ← terminal O store run e cancel
      refuseIf (!acknowledged) "DAG stale review is not the exact acknowledged transition"
      pure true

theorem decides_eq_true {review : String} {cancel : Bool} (hrun : run.event ∈ events)
    (hinj : ∀ a ∈ events, ∀ b ∈ events, reviewOf O run.plan a = reviewOf O run.plan b → a = b) :
    Decides O store run events review cancel = .ok true ↔ ∃ e ∈ events,
      reviewOf O run.plan e = review ∧ e ≠ run.event ∧
        terminal O store run e cancel = .ok true := by
  unfold Decides
  by_cases hcurrent : reviewOf O run.plan run.event = review
  · rw [if_pos (by simpa using hcurrent)]
    constructor
    · intro h
      cases h
    · rintro ⟨e, he, hname, hne, -⟩
      exact absurd (hinj e he run.event hrun (hname.trans hcurrent.symm)) hne
  · rw [if_neg (by simpa using hcurrent)]
    cases hfind : events.find? fun e => reviewOf O run.plan e == review with
    | none =>
      constructor
      · intro h
        exact absurd h refuse_ne_ok
      · rintro ⟨e, he, hname, -⟩
        have := List.find?_eq_none.mp hfind e he
        exact absurd (beq_iff_eq.mpr hname) this
    | some e =>
      have hname : reviewOf O run.plan e = review := by simpa using List.find?_some hfind
      have he := List.mem_of_find?_eq_some hfind
      simp only [bind_eq_ok, refuseIf_eq_ok, Bool.not_eq_false', pure_eq_ok]
      constructor
      · rintro ⟨_, hterminal, _, rfl, -⟩
        exact ⟨e, he, hname, fun heq => hcurrent (heq ▸ hname), hterminal⟩
      · rintro ⟨e', he', hname', -, hterminal⟩
        obtain rfl := hinj e he e' he' (hname.trans hname'.symm)
        exact ⟨true, hterminal, (), rfl, trivial⟩

theorem decides_eq_false {review : String} {cancel : Bool} :
    Decides O store run events review cancel = .ok false ↔
      review = reviewOf O run.plan run.event := by
  unfold Decides
  by_cases hcurrent : reviewOf O run.plan run.event = review
  · rw [if_pos (by simpa using hcurrent)]
    exact iff_of_true rfl hcurrent.symm
  · rw [if_neg (by simpa using hcurrent)]
    refine iff_of_false (fun h => ?_) (Ne.symm hcurrent)
    cases hfind : events.find? fun e => reviewOf O run.plan e == review with
    | none =>
      rw [hfind] at h
      exact absurd h refuse_ne_ok
    | some e =>
      simp only [hfind, bind_eq_ok, pure_eq_ok] at h
      obtain ⟨_, -, _, -, h⟩ := h
      cases h

theorem noPanic_decides {review : String} {cancel : Bool}
    (hvalid : run.plan.validate O store.installation = .ok x) :
    NoPanic (Decides O store run events review cancel) := by
  unfold Decides
  split
  · infer_instance
  · split
    · infer_instance
    · exact noPanic_bind (noPanic_terminal hvalid) fun _ _ => noPanic_bind (noPanic_refuseIf _ _)
        fun _ _ => noPanic_pure _

/-- **Only the exact last acknowledged transition is honoured.** The digests of the run's checkpoints
are assumed to differ. -/
theorem replayed_review_exact (h : store.load O objects db request = .ok run)
    (hinj : ∀ a ∈ db.history O request, ∀ b ∈ db.history O request,
      reviewOf O run.plan a = reviewOf O run.plan b → a = b) (review : String) :
    (db.history O request).getLast? = some run.event ∧
    (store.replayedReview O db run review false = .ok true ↔ run.event.phase = .completed ∧
      ∃ e, CompletesTo (db.history O request) e ∧ review = reviewOf O run.plan e) ∧
    (store.replayedReview O db run review true = .ok true ↔ run.event.phase = .cancelled ∧
      ∃ e, PrecedesLast (db.history O request) e ∧ review = reviewOf O run.plan e) ∧
    (∀ cancel, store.replayedReview O db run review cancel = .ok false ↔
      review = reviewOf O run.plan run.event) ∧
    ∀ cancel, (∃ b, store.replayedReview O db run review cancel = .ok b) ∨
      ∃ message, store.replayedReview O db run review cancel = refuse message := by
  obtain ⟨x, events, hchain, ⟨hlast, -⟩, hrecorded, hselect, hrequest⟩ := load_recorded h
  rw [history_eq hchain.rows hrecorded] at hinj ⊢
  have hrun : run.event ∈ events := List.mem_of_getLast? hlast
  have hcall : ∀ cancel, store.replayedReview O db run review cancel =
      Decides O store run events review cancel := fun cancel => by
    rw [Store.replayedReview, hrequest, hselect, hchain.rows, Decides,
      ← replayedRow_eq hrecorded.parsed]
    rfl
  have hlater : ∀ {e : Event}, run.event.ordinal = e.ordinal + 1 ∨
      run.event.ordinal = e.ordinal + 2 → e ≠ run.event := by
    rintro e hordinal rfl
    omega
  simp only [hcall, decides_eq_false, decides_eq_true hrun hinj, terminal_cancel,
    terminal_advance hchain.valid]
  refine ⟨hlast, ?_, ?_, fun _ => trivial, fun cancel => ?_⟩
  · constructor
    · rintro ⟨e, he, rfl, -, hphase, hordinal⟩
      exact ⟨hphase, e, (completesTo_iff hchain.follows hrecorded hlast hphase he).mpr hordinal, rfl⟩
    · rintro ⟨hphase, e, hcompletes, rfl⟩
      have he : e ∈ events := by
        cases hcompletes with
        | directly h =>
          obtain ⟨past, l, rfl⟩ := h
          simp
        | applying past opened l h =>
          subst h
          simp
      have hordinal := (completesTo_iff hchain.follows hrecorded hlast hphase he).mp hcompletes
      exact ⟨e, he, rfl, hlater (hordinal.imp id fun h => h.1), hphase, hordinal⟩
  · constructor
    · rintro ⟨e, he, rfl, -, hphase, hordinal⟩
      exact ⟨hphase, e, (precedesLast_iff hrecorded hlast he).mpr hordinal, rfl⟩
    · rintro ⟨hphase, e, hprecedes, rfl⟩
      have he : e ∈ events := by
        obtain ⟨past, l, rfl⟩ := hprecedes
        simp
      have hordinal := (precedesLast_iff hrecorded hlast he).mp hprecedes
      exact ⟨e, he, rfl, hlater (.inl hordinal), hphase, hordinal⟩
  · have hpanic := ((@noPanic_decides _ _ _ _ events review cancel) hchain.valid).out
    cases hresult : Decides O store run events review cancel with
    | ok b => exact .inl ⟨b, rfl⟩
    | error stop =>
      cases stop with
      | refused message => exact .inr ⟨message, rfl⟩
      | panicked message => exact absurd hresult (hpanic message)

/-! ### A run that was cancelled -/

theorem load_cancelled : ∃ run, Store.sample.load Outside.counting (fun _ => refuse "no such file")
    Db.cancelled "r" = .ok run ∧ run.plan = Plan.owned := by
  obtain ⟨prepared, cancelled, htrace, -, hok, hcall, hafter⟩ := calls_cancelled
  have hmem : cancelled ∈ trace Outside.counting Store.sample { runs := ∅, events := [] }
      [Call.prepares, Call.cancels] := by simp [htrace]
  have hpersists := persists_of_mem hmem
  rw [hok, hcall, hafter] at hpersists
  cases hpersists with
  | committed r db' run hsame hload hplan => exact ⟨run, hload, hplan⟩

theorem canonical_differs : (cancelledEvent.canonical == preparedEvent.canonical) = false := by
  refine beq_eq_false_iff_ne.mpr fun h => ?_
  have hjson : cancelledEvent.toJson = preparedEvent.toJson := text_injective h
  simp [Event.toJson, cancelledEvent, preparedEvent] at hjson

theorem chain_cancelled : Db.cancelled.chain "r" =
    [(0, preparedEvent.canonical), (1, cancelledEvent.canonical)] := by
  simp [Db.chain, Db.cancelled, List.insertionSort]

theorem parse_prepared :
    Outside.counting.parseEvent preparedEvent.canonical = .ok preparedEvent := by
  simp only [Outside.counting, beq_self_eq_true, if_true]

theorem parse_cancelled :
    Outside.counting.parseEvent cancelledEvent.canonical = .ok cancelledEvent := by
  simp only [Outside.counting, canonical_differs, Bool.false_eq_true, if_false]

theorem history_cancelled :
    Db.cancelled.history Outside.counting "r" = [preparedEvent, cancelledEvent] := by
  rw [Db.history, chain_cancelled]
  simp only [List.filterMap_cons, List.filterMap_nil, parse_prepared, parse_cancelled,
    Except.toOption]

/-- The decision reviewed at the prepared event replays as the cancellation it led to. -/
theorem replayed_review_cancelled : ∃ run,
    Store.sample.load Outside.counting (fun _ => refuse "no such file") Db.cancelled "r" = .ok run ∧
    Store.sample.replayedReview Outside.counting Db.cancelled run
      (reviewOf Outside.counting Plan.owned preparedEvent) true = .ok true := by
  obtain ⟨run, hload, hplan⟩ := load_cancelled
  have hinj : ∀ a ∈ Db.cancelled.history Outside.counting "r",
      ∀ b ∈ Db.cancelled.history Outside.counting "r",
      reviewOf Outside.counting run.plan a = reviewOf Outside.counting run.plan b → a = b := by
    rw [hplan, history_cancelled]
    decide +kernel
  have hexact := replayed_review_exact hload hinj
  have hlast : some cancelledEvent = some run.event := by
    rw [← (hexact "").1, history_cancelled]
    rfl
  rw [history_cancelled, hplan] at hexact
  exact ⟨run, hload, (hexact _).2.2.1.mpr
    ⟨Option.some.inj hlast ▸ rfl, preparedEvent, ⟨[], cancelledEvent, rfl⟩, rfl⟩⟩

end LumaOS.Workflow
