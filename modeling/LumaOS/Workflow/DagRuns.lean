import LumaOS.Workflow.Admission
import LumaOS.Workflow.Checkpoint

/-!
# Durable runs follow their plan

The language of checkpoint chains is what `load` accepts. `Executable.Follows` states it outright:
`Prepared`, then for each node of the order its steps, then nothing, an open `Applying`, or a
cancellation. Replaying an event keeps it (`Moves.follows`), so every chain that `load` accepts
has it (`load_eq_ok`); and `persist` commits only what `load` accepts (`persist_yields`).

**`dag_runs_follow_plan`** is the result over whole runs of the store.
-/

namespace LumaOS.Workflow

open LumaOS.Base LumaOS.Text LumaOS.Json

/-! ## The language of chains -/

/-- The node of an id writes an artifact. -/
def Executable.writes (x : Executable) (id : String) : Bool :=
  match x.node id with
  | .ok node => node.kind == .artifactWrite
  | .error _ => false

/-- The checkpoints of one node. -/
def Executable.steps (x : Executable) (id : String) : List (Phase × String) :=
  if x.writes id then [(.applying, id), (.completed, id)] else [(.completed, id)]

def Event.label (e : Event) : Phase × String := (e.phase, e.node)

def Event.isCompleted (e : Event) : Bool := e.phase == .completed

/-- How a chain ends after `cursor` nodes: the phase of its last event, and what follows the steps of
those nodes. -/
inductive Ending (x : Executable) (cursor : Nat) : Phase → List (Phase × String) → Prop
  | prepared (h : cursor = 0) : Ending x cursor .prepared []
  | completed (h : 0 < cursor) : Ending x cursor .completed []
  | applying (node : String) (h : x.order[cursor]? = some node) (hwrites : x.writes node = true) :
      Ending x cursor .applying [(.applying, node)]
  | cancelled (h : cursor < x.order.length) : Ending x cursor .cancelled [(.cancelled, "")]

/-- **A chain that follows its plan.** -/
structure Executable.Follows (x : Executable) (events : List Event) (cursor : Nat) : Prop where
  bounded : cursor ≤ x.order.length
  shape : ∃ last tail, events.getLast? = some last ∧ Ending x cursor last.phase tail ∧
    events.map Event.label = (.prepared, "") :: (x.order.take cursor).flatMap x.steps ++ tail
  outputs : ∀ e ∈ events, e.output.isSome = e.isCompleted

/-- The outputs of the completed events. -/
def completedOutputs (events : List Event) : Table Output :=
  events.foldl (fun outputs e => match e.isCompleted, e.output with
    | true, some output => outputs.insert e.node output
    | _, _ => outputs) ∅

/-- What a replay holds after some events. -/
structure Replayed (x : Executable) (events : List Event) (r : Replay) : Prop where
  previous : r.previous = events.getLast?
  cursor : r.cursor = events.countP Event.isCompleted
  outputs : r.outputs = completedOutputs events
  nodes : (events.filter Event.isCompleted).map Event.node = x.order.take r.cursor
  follows : events ≠ [] → x.Follows events r.cursor

/-! ## One event -/

section Replay

variable {O : Outside} {objects : Objects} {plan : Plan} {x : Executable} {r r' : Replay}
  {event : Event} {past : List Event}

theorem node_eq_ok {id : String} {node : Node} (h : x.node id = .ok node) : node.id = id := by
  simp only [Executable.node, okOr_eq_ok] at h
  have hid := List.find?_some h
  exact beq_iff_eq.mp hid

theorem writes_eq {id : String} {node : Node} (h : x.node id = .ok node) :
    x.writes id = (node.kind == .artifactWrite) := by
  simp only [Executable.writes, h]

/-- What the transition of an accepted event says. -/
inductive Moves (x : Executable) (r : Replay) (ordinal : Nat) (event : Event) :
    Table Output × Nat → Prop
  | prepared (hphase : event.phase = .prepared) (hfirst : ordinal = 0) (hnode : event.node = "")
      (houtput : event.output = none) : Moves x r ordinal event (r.outputs, r.cursor)
  | cancelled (hphase : event.phase = .cancelled) (hlater : ordinal ≠ 0)
      (happlying : r.previous.map Event.phase ≠ some .applying) (hnode : event.node = "")
      (houtput : event.output = none) : Moves x r ordinal event (r.outputs, r.cursor)
  | applying (hphase : event.phase = .applying) (hlater : ordinal ≠ 0)
      (hnode : x.order[r.cursor]? = some event.node) (hwrites : x.writes event.node = true)
      (houtput : event.output = none)
      (happlying : r.previous.map Event.phase ≠ some .applying) :
      Moves x r ordinal event (r.outputs, r.cursor)
  | completed (output : Output) (hphase : event.phase = .completed) (hlater : ordinal ≠ 0)
      (hnode : x.order[r.cursor]? = some event.node) (houtput : event.output = some output)
      (hwrites : x.writes event.node = true → r.previous.map Event.phase = some .applying) :
      Moves x r ordinal event (r.outputs.insert event.node output, r.cursor + 1)

/-- An artifact is completed only after its intent was recorded. -/
theorem checkOutput_applying {outputs : Table Output} {node : Node} {output : Output} {u : Unit}
    (h : checkOutput O objects plan r.previous outputs node output = .ok u)
    (hkind : node.kind = .artifactWrite) : r.previous.map Event.phase = some .applying := by
  unfold checkOutput at h
  rw [hkind] at h
  cases output with
  | text sha256 bytes | report sha256 bytes inputSha256 lease => exact absurd h refuse_ne_ok
  | artifact receipt =>
    obtain ⟨_, happlying, -⟩ := bind_eq_ok.mp h
    rw [refuseIf_eq_ok, bne_eq_false_iff_eq] at happlying
    exact happlying

theorem transition_eq_ok {ordinal : Nat} {result : Table Output × Nat}
    (h : transition O objects plan x r ordinal event = .ok result) :
    Moves x r ordinal event result := by
  unfold transition at h
  dsimp only at h
  split at h
  · rename_i hphase
    simp only [bind_eq_ok, refuseIf_eq_ok, Bool.or_eq_false_iff, Bool.not_eq_false', beq_iff_eq,
      String.isEmpty_iff, Option.isSome_eq_false_iff, Option.isNone_iff_eq_none, pure_eq_ok] at h
    obtain ⟨_, ⟨⟨hfirst, hnode⟩, houtput⟩, rfl⟩ := h
    exact .prepared hphase hfirst hnode houtput
  · rename_i hphase
    simp only [bind_eq_ok, refuseIf_eq_ok, Bool.or_eq_false_iff, Bool.not_eq_false',
      beq_eq_false_iff_ne, String.isEmpty_iff, Option.isSome_eq_false_iff,
      Option.isNone_iff_eq_none, pure_eq_ok] at h
    obtain ⟨_, ⟨⟨⟨hlater, happlying⟩, hnode⟩, houtput⟩, rfl⟩ := h
    exact .cancelled hphase hlater happlying hnode houtput
  · rename_i hphase
    simp only [bind_eq_ok, refuseIf_eq_ok, expect_eq_ok, Bool.or_eq_false_iff,
      bne_eq_false_iff_eq, beq_eq_false_iff_ne, Option.isSome_eq_false_iff,
      Option.isNone_iff_eq_none, pure_eq_ok] at h
    obtain ⟨_, hlater, _, hexpected, _, rfl, node, hnode, _, ⟨⟨hkind, houtput⟩, happlying⟩,
      rfl⟩ := h
    refine .applying hphase hlater hexpected ?_ houtput happlying
    rw [writes_eq hnode, hkind]
    rfl
  · rename_i hphase
    simp only [bind_eq_ok, refuseIf_eq_ok, expect_eq_ok, okOr_eq_ok, bne_eq_false_iff_eq,
      beq_eq_false_iff_ne, pure_eq_ok] at h
    obtain ⟨_, hlater, _, hexpected, _, rfl, node, hnode, output, houtput, _, hcheck, rfl⟩ := h
    rw [node_eq_ok hnode]
    refine .completed output hphase hlater hexpected houtput fun hwrites => ?_
    rw [writes_eq hnode, beq_iff_eq] at hwrites
    exact checkOutput_applying hcheck hwrites

/-- The labels of a chain after one more node. -/
theorem flatMap_take_succ {cursor : Nat} {node : String} (h : x.order[cursor]? = some node) :
    (x.order.take (cursor + 1)).flatMap x.steps =
      (x.order.take cursor).flatMap x.steps ++ x.steps node := by
  rw [List.take_add_one, h, Option.toList_some, List.flatMap_append, List.flatMap_singleton]

theorem lt_length {cursor : Nat} {node : String} (h : x.order[cursor]? = some node) :
    cursor < x.order.length := (List.getElem?_eq_some_iff.mp h).1

/-- Between two nodes nothing is left over. -/
theorem Ending.clean {cursor : Nat} {phase : Phase} {tail : List (Phase × String)}
    (h : Ending x cursor phase tail) (happlying : phase ≠ .applying)
    (hcancelled : phase ≠ .cancelled) : tail = [] := by
  cases h with
  | prepared => rfl
  | completed => rfl
  | applying => exact absurd rfl happlying
  | cancelled => exact absurd rfl hcancelled

/-- The first event prepares. -/
theorem Moves.first {result : Table Output × Nat} (h : Moves x r 0 event result)
    (hcursor : r.cursor = 0) : x.Follows [event] result.2 ∧ event.phase = .prepared ∧
      result = (r.outputs, r.cursor) := by
  cases h with
  | prepared hphase hfirst hnode houtput =>
    refine ⟨⟨?_, ⟨event, [], rfl, ?_, ?_⟩, ?_⟩, hphase, rfl⟩
    · rw [hcursor]
      exact Nat.zero_le _
    · rw [hphase]
      exact .prepared hcursor
    · simp [Event.label, hphase, hnode, hcursor]
    · simp [Event.isCompleted, hphase, houtput]
  | cancelled hphase hlater | applying hphase hlater | completed output hphase hlater =>
    exact absurd rfl hlater

/-- **A further event keeps a chain in its language.** -/
theorem Moves.follows {result : Table Output × Nat} {ordinal : Nat} {last : Event}
    (h : Moves x r ordinal event result) (hchain : x.Follows past r.cursor)
    (hlast : past.getLast? = some last) (hprevious : r.previous = some last)
    (hordinal : ordinal ≠ 0) (hopen : last.phase ≠ .cancelled ∧ r.cursor ≠ x.order.length) :
    x.Follows (past ++ [event]) result.2 := by
  obtain ⟨hbounded, ⟨last', tail, hlast', hending, hlabels⟩, houtputs⟩ := hchain
  obtain rfl := Option.some.inj (hlast.symm.trans hlast')
  have hlt : r.cursor < x.order.length := Nat.lt_of_le_of_ne hbounded hopen.2
  have hphaseOf : r.previous.map Event.phase = some last.phase := by rw [hprevious]; rfl
  have houtputs' : event.output.isSome = event.isCompleted →
      ∀ e ∈ past ++ [event], e.output.isSome = e.isCompleted := by
    intro he e hmem
    rcases List.mem_append.mp hmem with hmem | hmem
    · exact houtputs e hmem
    · rw [List.mem_singleton.mp hmem]
      exact he
  have hclean : last.phase ≠ .applying → tail = [] := fun hnot => hending.clean hnot hopen.1
  cases h with
  | prepared hphase hfirst => exact absurd hfirst hordinal
  | cancelled hphase hlater happlying hnode houtput =>
    rw [hphaseOf] at happlying
    obtain rfl := hclean fun he => happlying (congrArg some he)
    refine ⟨hbounded, ⟨event, [(.cancelled, "")], List.getLast?_concat .., ?_, ?_⟩,
      houtputs' (by simp [Event.isCompleted, hphase, houtput])⟩
    · rw [hphase]
      exact .cancelled hlt
    · rw [List.map_append, hlabels]
      simp [Event.label, hphase, hnode]
  | applying hphase hlater hnode hwrites houtput happlying =>
    rw [hphaseOf] at happlying
    obtain rfl := hclean fun he => happlying (congrArg some he)
    refine ⟨hbounded, ⟨event, [(.applying, event.node)], List.getLast?_concat .., ?_, ?_⟩,
      houtputs' (by simp [Event.isCompleted, hphase, houtput])⟩
    · rw [hphase]
      exact .applying event.node hnode hwrites
    · rw [List.map_append, hlabels]
      simp [Event.label, hphase]
  | completed output hphase hlater hnode houtput hwrites =>
    refine ⟨hlt, ⟨event, [], List.getLast?_concat .., ?_, ?_⟩,
      houtputs' (by simp [Event.isCompleted, hphase, houtput])⟩
    · rw [hphase]
      exact .completed (Nat.succ_pos _)
    · rw [List.map_append, hlabels, flatMap_take_succ hnode]
      by_cases hw : x.writes event.node = true
      · -- the open intent is this node's
        have hlastPhase := hwrites hw
        rw [hphaseOf, Option.some.injEq] at hlastPhase
        rw [hlastPhase] at hending
        cases hending with
        | applying node hnode' _ =>
          obtain rfl := Option.some.inj (hnode.symm.trans hnode')
          simp [Event.label, hphase, Executable.steps, hw]
      · have hnot : last.phase ≠ .applying := by
          intro he
          rw [he] at hending
          cases hending with
          | applying node hnode' hwrites' =>
            obtain rfl := Option.some.inj (hnode.symm.trans hnode')
            exact hw hwrites'
        rw [hclean hnot]
        simp [Event.label, hphase, Executable.steps, hw]

theorem completedOutputs_append (past : List Event) (event : Event) :
    completedOutputs (past ++ [event]) = match event.isCompleted, event.output with
      | true, some output => (completedOutputs past).insert event.node output
      | _, _ => completedOutputs past := by
  simp only [completedOutputs, List.foldl_append, List.foldl_cons, List.foldl_nil]

/-- The outputs and the cursor count the completed events. -/
theorem Moves.counts {result : Table Output × Nat} {ordinal : Nat}
    (h : Moves x r ordinal event result) (hr : Replayed x past r) :
    result.2 = (past ++ [event]).countP Event.isCompleted ∧
    result.1 = completedOutputs (past ++ [event]) ∧
    ((past ++ [event]).filter Event.isCompleted).map Event.node = x.order.take result.2 := by
  have hother : event.isCompleted = false → result = (r.outputs, r.cursor) →
      result.2 = (past ++ [event]).countP Event.isCompleted ∧
      result.1 = completedOutputs (past ++ [event]) ∧
      ((past ++ [event]).filter Event.isCompleted).map Event.node = x.order.take result.2 := by
    rintro hc rfl
    refine ⟨?_, ?_, ?_⟩
    · rw [List.countP_append, List.countP_singleton, hc, hr.cursor]
      rfl
    · rw [completedOutputs_append, hc, hr.outputs]
    · rw [List.filter_append, List.filter_singleton, hc, ← hr.nodes]
      simp
  cases h with
  | prepared hphase | cancelled hphase | applying hphase =>
    exact hother (by simp [Event.isCompleted, hphase]) rfl
  | completed output hphase hlater hnode houtput =>
    have hc : event.isCompleted = true := by simp [Event.isCompleted, hphase]
    refine ⟨?_, ?_, ?_⟩
    · rw [List.countP_append, List.countP_singleton, hc, hr.cursor]
      rfl
    · rw [completedOutputs_append, hc, houtput, hr.outputs]
    · rw [List.filter_append, List.filter_singleton, hc, List.map_append, hr.nodes,
        List.take_add_one, hnode]
      rfl

/-- The row of an event. -/
def Event.row (e : Event) : Nat × String := (e.ordinal, e.canonical)

/-- The events as their rows hold them, numbered from zero. -/
structure Recorded (O : Outside) (events : List Event) : Prop where
  parsed : ∀ e ∈ events, O.parseEvent e.canonical = .ok e
  numbered : events.map Event.ordinal = List.range events.length

theorem Recorded.append (h : Recorded O past) (hparsed : O.parseEvent event.canonical = .ok event)
    (hordinal : event.ordinal = (past.getLast?.map fun e => e.ordinal + 1).getD 0) :
    Recorded O (past ++ [event]) := by
  refine ⟨fun e he => ?_, ?_⟩
  · rcases List.mem_append.mp he with he | he
    · exact h.parsed e he
    · exact List.mem_singleton.mp he ▸ hparsed
  · have hlast : past.length = (past.getLast?.map fun e => e.ordinal + 1).getD 0 := by
      rcases List.eq_nil_or_concat past with rfl | ⟨init, last, rfl⟩
      · rfl
      · have hnumbered := h.numbered
        rw [List.concat_eq_append] at hnumbered ⊢
        rw [List.length_append, List.length_singleton, List.range_succ, List.map_append,
          List.map_singleton] at hnumbered
        obtain ⟨-, heq⟩ := List.append_inj' hnumbered rfl
        rw [List.getLast?_concat, List.length_append, List.length_singleton]
        exact congrArg (· + 1) (List.cons.inj heq).1.symm
    rw [List.map_append, h.numbered, List.length_append, List.length_singleton, List.range_succ,
      List.map_singleton, hordinal, ← hlast]

/-- **Replaying one more row.** -/
theorem replay_eq_ok {row : Nat × String} (hr : Replayed x past r) (hp : Recorded O past)
    (h : replay O objects plan x r row = .ok r') :
    ∃ event, row = event.row ∧ Replayed x (past ++ [event]) r' ∧ Recorded O (past ++ [event]) := by
  simp only [replay, bind_eq_ok, refuseIf_eq_ok, Bool.or_eq_false_iff, bne_eq_false_iff_eq,
    pure_eq_ok] at h
  obtain ⟨event, hparsed, _, ⟨⟨⟨⟨⟨⟨-, hordinal⟩, hrow⟩, hcanonical⟩, -⟩, -⟩, -⟩, _, hopen, result,
    htransition, rfl⟩ := h
  have hmoves := transition_eq_ok htransition
  obtain ⟨hcursor, houtputs, hnodes⟩ := hmoves.counts hr
  have hrecorded : Recorded O (past ++ [event]) := by
    cases e : O.parseEvent row.2 with
    | error message =>
      rw [e] at hparsed
      cases hparsed
    | ok parsed =>
      rw [e] at hparsed
      obtain rfl : parsed = event := Except.ok.inj hparsed
      rw [← hcanonical] at e
      exact hp.append e (hr.previous ▸ hordinal)
  refine ⟨event, Prod.ext hrow.symm hcanonical.symm, ⟨(List.getLast?_concat ..).symm, hcursor,
    houtputs, hnodes, fun _ => ?_⟩, hrecorded⟩
  rcases List.eq_nil_or_concat past with rfl | ⟨init, last, hpast⟩
  · have hzero : r.cursor = 0 := hr.cursor
    rw [hr.previous] at hmoves
    exact (hmoves.first hzero).1
  · rw [List.concat_eq_append] at hpast
    have hlast : past.getLast? = some last := by rw [hpast, List.getLast?_concat]
    have hprevious := hr.previous.trans hlast
    rw [hprevious] at hopen
    simp only [Option.any_some, Bool.or_eq_false_iff, beq_eq_false_iff_ne] at hopen
    refine hmoves.follows (hr.follows ?_) hlast hprevious ?_ hopen
    · rw [hpast]
      simp
    · rw [hprevious]
      simp

/-- **Replaying a chain.** -/
theorem replayAll_eq_ok {rows : List (Nat × String)} (hr : Replayed x past r)
    (hp : Recorded O past) (h : rows.foldlM (replay O objects plan x) r = .ok r') :
    ∃ events, rows = events.map Event.row ∧ Replayed x (past ++ events) r' ∧
      Recorded O (past ++ events) := by
  induction rows generalizing past r with
  | nil =>
    rw [List.foldlM_nil, pure_eq_ok] at h
    subst h
    exact ⟨[], rfl, by rwa [List.append_nil], by rwa [List.append_nil]⟩
  | cons row rows ih =>
    rw [List.foldlM_cons, bind_eq_ok] at h
    obtain ⟨mid, hmid, hrest⟩ := h
    obtain ⟨event, rfl, hevent, hpevent⟩ := replay_eq_ok hr hp hmid
    obtain ⟨events, rfl, hevents, hpevents⟩ := ih hevent hpevent hrest
    rw [List.append_assoc] at hevents hpevents
    exact ⟨event :: events, rfl, hevents, hpevents⟩

end Replay

/-! ## Loading -/

section Load

variable {O : Outside} {store : Store} {objects : Objects} {db : Db} {request : String}

/-- A validated plan's order has as many nodes as a graph may have. -/
theorem validate_order {plan : Plan} {installation : String} {x : Executable}
    (h : plan.validate O installation = .ok x) :
    x.order = plan.order ∧ x.order.length ≤ maxNodes := by
  simp only [Plan.validate, Executable.fromBytes, validateBytes, bind_eq_ok, refuseIf_eq_ok,
    bne_eq_false_iff_eq, pure_eq_ok] at h
  obtain ⟨_, -, _, -, _, -, _, -, _, ⟨validation, ⟨_, -, graph, -, hvalidate⟩, _, -, rfl⟩, _, horder,
    _, -, _, -, _, -, _, -, _, -, rfl⟩ := h
  obtain ⟨⟨hbounds, -⟩, hperm, -⟩ := admitted_of_ok hvalidate
  refine ⟨horder, ?_⟩
  dsimp only
  rw [hperm.length_eq, List.length_map]
  exact hbounds.nodes.2

theorem length_steps_le (id : String) (x : Executable) : (x.steps id).length ≤ 2 := by
  unfold Executable.steps
  split
  · exact Nat.le_refl 2
  · exact Nat.le_succ 1

theorem length_flatMap_steps_le (x : Executable) (ids : List String) :
    (ids.flatMap x.steps).length ≤ 2 * ids.length := by
  induction ids with
  | nil => exact Nat.le_refl 0
  | cons id ids ih =>
    rw [List.flatMap_cons, List.length_append, List.length_cons]
    have := length_steps_le id x
    omega

/-- **A chain of a validated plan stays within the query bound.** -/
theorem Executable.Follows.length_le {x : Executable} {events : List Event} {cursor : Nat}
    (h : x.Follows events cursor) (horder : x.order.length ≤ maxNodes) : events.length ≤ 129 := by
  obtain ⟨hbounded, ⟨last, tail, -, hending, hlabels⟩, -⟩ := h
  have hlength := congrArg List.length hlabels
  have hsteps := length_flatMap_steps_le x (x.order.take cursor)
  rw [List.length_map, List.cons_append, List.length_cons, List.length_append] at hlength
  rw [List.length_take_of_le hbounded] at hsteps
  have hmax : x.order.length ≤ 64 := horder
  have htail : tail.length = 0 ∨ (tail.length = 1 ∧ cursor < x.order.length) := by
    generalize last.phase = phase at hending
    cases hending with
    | prepared | completed => exact .inl rfl
    | applying node hnode => exact .inr ⟨rfl, lt_length hnode⟩
    | cancelled hlt => exact .inr ⟨rfl, hlt⟩
  omega

/-- The events of a stored run, which follow its plan. -/
structure Chain (O : Outside) (store : Store) (db : Db) (request : String) (plan : Plan)
    (x : Executable) (events : List Event) (cursor : Nat) : Prop where
  stored : db.runs[request]? = some plan.canonical
  valid : plan.validate O store.installation = .ok x
  order : x.order = plan.order
  rows : db.chain request = events.map Event.row
  follows : x.Follows events cursor
  counted : cursor = events.countP Event.isCompleted
  nodes : (events.filter Event.isCompleted).map Event.node = x.order.take cursor
  bound : events.length ≤ 130

/-- **What `load` accepts**, and that it can read every row. -/
theorem load_recorded {run : Run} (h : store.load O objects db request = .ok run) :
    ∃ x events, Chain O store db request run.plan x events run.cursor ∧
      (events.getLast? = some run.event ∧ run.outputs = completedOutputs events) ∧
        Recorded O events ∧ db.selectChain request = .ok (db.chain request) ∧
          run.plan.proposal.requestId = request := by
  simp only [Store.load, Db.selectPlan, Db.selectChain, bind_eq_ok, refuseIf_eq_ok, okOr_eq_ok,
    Bool.or_eq_false_iff, bne_eq_false_iff_eq, pure_eq_ok] at h
  obtain ⟨_, -, _, ⟨text, hstored, _, -, rfl⟩, plan, -, x, hvalid, _, ⟨⟨htext, hrequest⟩, -⟩, rows,
    ⟨_, hfew, _, hshort, rfl⟩, r, hreplay, event, hevent, rfl⟩ := h
  have hselect : db.selectChain request = .ok (db.chain request) := by
    simp only [Db.selectChain, bind_eq_ok, refuseIf_eq_ok, pure_eq_ok]
    exact ⟨(), hfew, (), hshort, trivial⟩
  have hnone : Recorded O [] := ⟨fun e he => absurd he List.not_mem_nil, rfl⟩
  have hinit : Replayed x [] { previous := none, outputs := ∅, cursor := 0 } :=
    ⟨rfl, rfl, rfl, rfl, fun h => absurd rfl h⟩
  obtain ⟨events, hrows, hreplayed, hrecorded⟩ := replayAll_eq_ok hinit hnone hreplay
  rw [List.nil_append] at hreplayed hrecorded
  have hlast : events.getLast? = some event := hreplayed.previous.symm.trans hevent
  have hne : events ≠ [] := by
    rintro rfl
    cases hlast
  have hfollows := hreplayed.follows hne
  obtain ⟨horder, hmax⟩ := validate_order hvalid
  exact ⟨x, events, ⟨by rw [hstored, htext], hvalid, horder, hrows, hfollows, hreplayed.cursor,
    hreplayed.nodes, (hfollows.length_le hmax).trans (by omega)⟩, ⟨hlast, hreplayed.outputs⟩,
    hrecorded, hselect, hrequest⟩

theorem load_eq_ok {run : Run} (h : store.load O objects db request = .ok run) :
    ∃ x events, Chain O store db request run.plan x events run.cursor ∧
      events.getLast? = some run.event ∧ run.outputs = completedOutputs events := by
  obtain ⟨x, events, hchain, hlast, -⟩ := load_recorded h
  exact ⟨x, events, hchain, hlast⟩

end Load

/-! ## Persisting -/

section Persist

variable {O : Outside} {store : Store} {db db' : Db}

theorem transact_yields {α : Type} {m : Mut Db α} {T : Result α → Db → Prop}
    (hok : ∀ a db', m.exec db = (.ok a, db') → T (.ok a) db')
    (herror : ∀ e db', m.exec db = (.error e, db') → T (.error e) db) :
    (transact m).Yields db T := by
  unfold Mut.Yields
  rw [exec_transact]
  rcases hm : m.exec db with ⟨e | a, db'⟩
  · exact herror e db' hm
  · exact hok a db' hm

/-- Two databases differ at most in one run. -/
def SameElsewhere (request : String) (db db' : Db) : Prop :=
  ∀ other, other ≠ request → db'.runs[other]? = db.runs[other]? ∧ db'.chain other = db.chain other

/-- One call of `persist`. -/
structure Call where
  env : Env
  plan : Plan
  previous : Option Event
  event : Event

def Call.request (c : Call) : String := c.plan.proposal.requestId

/-- **What `persist` does**: nothing, or one more checkpoint that `load` accepts. -/
inductive Persists (O : Outside) (store : Store) (c : Call) (db : Db) : Result Unit → Db → Prop
  | refused (e : Stop) : Persists O store c db (.error e) db
  | committed (r : Result Unit) (db' : Db) (run : Run) (hsame : SameElsewhere c.request db db')
      (hload : store.load O c.env.inside db' c.request = .ok run) (hplan : run.plan = c.plan)
      (hevent : run.event = c.event) : Persists O store c db r db'

theorem SameElsewhere.refl (request : String) (db : Db) : SameElsewhere request db db :=
  fun _ _ => ⟨rfl, rfl⟩

theorem SameElsewhere.trans {request : String} {a b c : Db} (hab : SameElsewhere request a b)
    (hbc : SameElsewhere request b c) : SameElsewhere request a c := fun other hne =>
  ⟨(hbc other hne).1.trans (hab other hne).1, (hbc other hne).2.trans (hab other hne).2⟩

theorem insertRun_yields (env : Env) (plan : Plan) :
    (insertRun env plan).Yields db fun r db' =>
      r = .ok () → SameElsewhere plan.proposal.requestId db db' := by
  unfold insertRun
  refine Mut.yields_bind_get ?_
  refine Mut.yields_bind_lift (fun e _ h => by cases h) fun _ _ => ?_
  refine Mut.yields_bind_lift (fun e _ h => by cases h) fun _ _ => ?_
  refine Mut.yields_bind_lift (fun e _ h => by cases h) fun _ _ => ?_
  refine Mut.yields_bind_lift (fun e _ h => by cases h) fun _ _ => ?_
  refine Mut.yields_bind_lift (fun e _ h => by cases h) fun _ _ => ?_
  refine Mut.yields_set fun _ other hne => ⟨?_, rfl⟩
  exact Table.get_insert_ne (Ne.symm hne)

theorem insertEvent_yields (env : Env) (plan : Plan) (event : Event) :
    (insertEvent env plan event).Yields db fun r db' =>
      r = .ok () → SameElsewhere plan.proposal.requestId db db' := by
  unfold insertEvent
  refine Mut.yields_bind_get ?_
  refine Mut.yields_bind_lift (fun e _ h => by cases h) fun _ _ => ?_
  refine Mut.yields_bind_lift (fun e _ h => by cases h) fun _ _ => ?_
  refine Mut.yields_bind_lift (fun e _ h => by cases h) fun _ _ => ?_
  refine Mut.yields_bind_lift (fun e _ h => by cases h) fun _ _ => ?_
  refine Mut.yields_set fun _ other hne => ⟨rfl, ?_⟩
  have hrow : (plan.proposal.requestId == other) = false := beq_false_of_ne (Ne.symm hne)
  simp only [Db.chain, List.filter_append, List.filter_cons, List.filter_nil, hrow,
    Bool.false_eq_true, if_false, List.append_nil]

/-- What the transaction has to end with. -/
def Accepted (O : Outside) (store : Store) (c : Call) (db : Db) (r : Result Unit) (db' : Db) :
    Prop :=
  r = .ok () → ∃ run, SameElsewhere c.request db db' ∧
    store.load O c.env.inside db' c.request = .ok run ∧ run.plan = c.plan ∧ run.event = c.event

theorem extend_yields (c : Call) {mid : Db} (hsame : SameElsewhere c.request db mid) :
    (store.extend O c.env c.plan c.event).Yields mid (Accepted O store c db) := by
  unfold Store.extend
  refine Mut.yields_bind ((insertEvent_yields c.env c.plan c.event).mono fun r db' hr => ?_)
  cases r with
  | error e => exact fun h => (by cases h)
  | ok u =>
    refine Mut.yields_bind_get ?_
    refine Mut.yields_bind_lift (fun e _ h => by cases h) fun run hrun => ?_
    refine Mut.yields_bind_lift (fun e _ h => by cases h) fun _ hmatch => ?_
    refine Mut.yields_bind_lift (fun e _ h => by cases h) fun _ _ => ?_
    refine Mut.yields_bind_lift (fun e _ h => by cases h) fun _ _ => ?_
    refine Mut.yields_bind_lift (fun e _ h => by cases h) fun _ _ => Mut.yields_lift fun _ => ?_
    rw [refuseIf_eq_ok, Bool.or_eq_false_iff, bne_eq_false_iff_eq, bne_eq_false_iff_eq] at hmatch
    exact ⟨run, hsame.trans (hr rfl), hrun, hmatch.1, hmatch.2⟩

/-- The transaction commits a database that `load` accepts, or leaves the old one. -/
theorem transaction_yields (c : Call) :
    (transact (do
      if c.previous.isNone then insertRun c.env c.plan
      store.extend O c.env c.plan c.event)).Yields db fun r db' =>
        Accepted O store c db r db' ∧ ∀ e, r = .error e → db' = db := by
  have hinner : Mut.Yields (do
      if c.previous.isNone then insertRun c.env c.plan
      store.extend O c.env c.plan c.event) db (Accepted O store c db) := by
    split
    · refine Mut.yields_bind ((insertRun_yields c.env c.plan).mono fun r db' hr => ?_)
      cases r with
      | error e => exact fun h => (by cases h)
      | ok u => exact extend_yields c (hr rfl)
    · exact extend_yields c (SameElsewhere.refl _ _)
  refine transact_yields (fun u db' hexec => ?_) fun e db' _ => ?_
  · unfold Mut.Yields at hinner
    rw [hexec] at hinner
    exact ⟨hinner, fun e h => (by cases h)⟩
  · exact ⟨fun h => (by cases h), fun _ _ => rfl⟩

/-- The comparison only reads. -/
theorem compare_yields (env : Env) (plan : Plan) (previous : Option Event) :
    (store.compare O env plan previous).Yields db fun _ db' => db' = db := by
  unfold Store.compare
  cases previous with
  | none => exact Mut.yields_pure rfl
  | some previous =>
    refine Mut.yields_bind_get ?_
    refine Mut.yields_bind_lift (fun _ _ => rfl) fun _ _ => Mut.yields_lift rfl

theorem upToCommit_yields (c : Call) :
    (store.upToCommit O c.env c.plan c.previous c.event).Yields db fun r db' =>
      Accepted O store c db r db' ∧ ∀ e, r = .error e → db' = db := by
  have hrefused : ∀ e : Stop, Accepted O store c db (.error e) db ∧
      ∀ e', (.error e : Result Unit) = .error e' → db = db :=
    fun e => ⟨fun h => (by cases h), fun _ _ => rfl⟩
  unfold Store.upToCommit
  refine Mut.yields_bind_lift (fun e _ => hrefused e) fun _ _ => ?_
  refine Mut.yields_bind_lift (fun e _ => hrefused e) fun _ _ => ?_
  refine Mut.yields_bind_lift (fun e _ => hrefused e) fun _ _ => ?_
  refine Mut.yields_bind_lift (fun e _ => hrefused e) fun _ _ => ?_
  refine Mut.yields_bind ((compare_yields c.env c.plan c.previous).mono fun r db' hdb => ?_)
  subst hdb
  cases r with
  | error e => exact hrefused e
  | ok u => exact Mut.yields_bind_lift (fun e _ => hrefused e) fun _ _ => transaction_yields c

theorem persist_yields (c : Call) :
    (store.persist O c.env c.plan c.previous c.event).Yields db (Persists O store c db) := by
  unfold Store.persist
  refine Mut.yields_bind ((upToCommit_yields c).mono fun r db' hr => ?_)
  cases r with
  | error e =>
    obtain rfl := hr.2 e rfl
    exact .refused e
  | ok u =>
    obtain ⟨run, hsame, hload, hplan, hevent⟩ := hr.1 rfl
    have hcommitted : ∀ r, Persists O store c db r db' := fun r =>
      .committed r db' run hsame hload hplan hevent
    exact Mut.yields_bind_lift (fun e _ => hcommitted _) fun _ _ => Mut.yields_lift (hcommitted _)

/-- A call that fails before its commit changes nothing. -/
theorem persist_of_error {c : Call} {stop : Stop}
    (h : ((store.upToCommit O c.env c.plan c.previous c.event).exec db).1 = .error stop) :
    (store.persist O c.env c.plan c.previous c.event).exec db = (.error stop, db) := by
  have hdb := (upToCommit_yields c : Mut.Yields _ db _).2 stop h
  exact Mut.exec_bind_of_error (Prod.ext h hdb)

end Persist

/-! ## Runs of the store -/

section Runs

variable {O : Outside} {store : Store} {db db' : Db}

/-- Every stored run follows its plan. -/
def Db.Sound (O : Outside) (store : Store) (db : Db) : Prop :=
  ∀ request text, db.runs[request]? = some text → ∃ plan x events cursor,
    plan.canonical = text ∧ Chain O store db request plan x events cursor

theorem sound_empty : Db.Sound O store { runs := ∅, events := [] } := by
  intro request text h
  rw [Std.ExtTreeMap.getElem?_empty] at h
  cases h

/-- **One call keeps every run on its plan.** -/
theorem Persists.sound {c : Call} {r : Result Unit} (h : Persists O store c db r db')
    (hdb : db.Sound O store) : db'.Sound O store := by
  cases h with
  | refused e => exact hdb
  | committed r db' run hsame hload =>
    intro request text htext
    by_cases hrequest : request = c.request
    · subst hrequest
      obtain ⟨x, events, hchain, -, -⟩ := load_eq_ok hload
      exact ⟨run.plan, x, events, run.cursor,
        Option.some.inj (hchain.stored.symm.trans htext), hchain⟩
    · obtain ⟨hruns, hrows⟩ := hsame request hrequest
      obtain ⟨plan, x, events, cursor, hplan, hchain⟩ := hdb request text (hruns ▸ htext)
      exact ⟨plan, x, events, cursor, hplan, { hchain with
        stored := hruns.trans hchain.stored
        rows := hrows.trans hchain.rows }⟩

/-- One call of a run, with the database before and after it. -/
structure Entry where
  before : Db
  call : Call
  result : Result Unit
  after : Db

/-- A run of `persist` calls on one store, failed ones included. -/
def trace (O : Outside) (store : Store) (db : Db) : List Call → List Entry
  | [] => []
  | c :: calls =>
    let (result, db') := (store.persist O c.env c.plan c.previous c.event).exec db
    ⟨db, c, result, db'⟩ :: trace O store db' calls

theorem trace_calls (calls : List Call) : ∀ {db : Db},
    (trace O store db calls).map Entry.call = calls := by
  induction calls with
  | nil => exact rfl
  | cons c calls ih => exact congrArg (c :: ·) ih

theorem trace_persists (calls : List Call) : ∀ {db : Db}, db.Sound O store →
    ∀ e ∈ trace O store db calls, e.after.Sound O store ∧ (e.result, e.after) =
      (store.persist O e.call.env e.call.plan e.call.previous e.call.event).exec e.before := by
  induction calls with
  | nil =>
    intro db _ e he
    exact absurd he List.not_mem_nil
  | cons c calls ih =>
    intro db hdb e he
    have hpersists : Persists O store c db _ _ := persist_yields c
    rcases List.mem_cons.mp he with rfl | he
    · exact ⟨hpersists.sound hdb, rfl⟩
    · exact ih (hpersists.sound hdb) e he

theorem persists_of_mem {calls : List Call} {e : Entry}
    (he : e ∈ trace O store { runs := ∅, events := [] } calls) :
    Persists O store e.call e.before e.result e.after := by
  have hyields : Mut.Yields _ e.before (Persists O store e.call e.before) := persist_yields e.call
  unfold Mut.Yields at hyields
  rwa [← (trace_persists calls sound_empty e he).2] at hyields

/-- **Durable runs follow their plan.** In every run of `persist` calls, with any plans, events and
outcomes of system calls: every stored chain is in the language of its plan and within the query
bound; a call that returned leaves a chain that `load` accepts, ending in its event, with the cursor
and the outputs of the completed events; and a call that failed before the commit changed nothing. -/
theorem dag_runs_follow_plan (O : Outside) (store : Store) (calls : List Call) (e : Entry)
    (he : e ∈ trace O store { runs := ∅, events := [] } calls) :
    (∀ request text, e.after.runs[request]? = some text → ∃ plan x events cursor,
      plan.canonical = text ∧ Chain O store e.after request plan x events cursor) ∧
    (e.result = .ok () → ∃ run x events,
      store.load O e.call.env.inside e.after e.call.request = .ok run ∧
      Chain O store e.after e.call.request e.call.plan x events run.cursor ∧
      events.getLast? = some e.call.event ∧ run.outputs = completedOutputs events) ∧
    (∀ stop, ((store.upToCommit O e.call.env e.call.plan e.call.previous e.call.event).exec
      e.before).1 = .error stop → e.result = .error stop ∧ e.after = e.before) := by
  obtain ⟨hsound, hexec⟩ := trace_persists calls sound_empty e he
  have hpersists := persists_of_mem he
  refine ⟨hsound, fun hok => ?_, fun stop hstop => ?_⟩
  · obtain ⟨before, call, result, after⟩ := e
    cases hpersists with
    | refused e => cases hok
    | committed r db' run hsame hload hplan hevent =>
      obtain ⟨x, events, hchain, hlast, houtputs⟩ := load_eq_ok hload
      rw [hplan] at hchain
      rw [hevent] at hlast
      exact ⟨run, x, events, hload, hchain, hlast, houtputs⟩
  · rw [persist_of_error hstop] at hexec
    exact Prod.ext_iff.mp hexec

/-- A plan without owner and files, for a calculation and its artifact. -/
def Plan.ownerless : Plan where
  schemaVersion := 1
  installation := repeatText "b" 64
  proposal :=
    { schemaVersion := 1
      requestId := "r"
      workflowSha256 := repeatText "c" 64
      inputs := ∅
      targets := (∅ : Table Target).insert "c" ⟨"report", 0⟩
      historyEpoch := none }
  graph :=
    { schemaVersion := 1
      profile := "file-to-artifact-v1"
      graphId := "g"
      nodes := [⟨"a", .fileRead, [], [], .text⟩,
        ⟨"b", .deterministicCalculate, ["a"], [.text], .report⟩,
        ⟨"c", .artifactWrite, ["b"], [.report], .artifact⟩] }
  order := ["a", "b", "c"]
  storageDevice := "253:0"
  owner := none

/-- The call that would prepare it, where nothing outside fails. -/
def Call.ownerless : Call where
  env :=
    { check := fun _ => .ok ()
      before := fun _ => refuse "no such file"
      inside := fun _ => refuse "no such file"
      begin := .ok ()
      insertRun := .ok ()
      insertEvent := .ok ()
      sync := fun _ => .ok ()
      commit := .ok () }
  plan := Plan.ownerless
  previous := none
  event := ⟨1, 0, hex (zeros 32), hex (zeros 32), "", .prepared, none, repeatText "a" 32⟩

def Store.sample : Store := ⟨repeatText "b" 64, repeatText "f" 64⟩

/-- The same plan with an owner and a file. -/
def Plan.owned : Plan :=
  { Plan.ownerless with
    owner := some ⟨repeatText "f" 64, 1⟩
    proposal :=
      { Plan.ownerless.proposal with
        inputs := (∅ : Table SourceIdentity).insert "a"
          ⟨inputDirectory ++ "/" ++ repeatText "d" 64, "a", ⟨1, 2⟩, 1, 3, 4, 0, 0, 0, 0, 0, 0, 0,
            repeatText "d" 64⟩ } }

/-- A digest that only counts. -/
def counted (bytes : Bytes) : Bytes := [UInt8.ofNat bytes.length]

def preparedEvent : Event where
  schemaVersion := 1
  ordinal := 0
  planSha256 := hex (counted (toVec Plan.owned.toJson))
  previousSha256 := hex (counted (toVec Plan.owned.toJson))
  node := ""
  phase := .prepared
  output := none
  policyOperationId := repeatText "a" 32

def cancelledEvent : Event :=
  { preparedEvent with
    ordinal := 1
    previousSha256 := hex (counted (toVec preparedEvent.toJson))
    phase := .cancelled }

def Outside.counting : Outside where
  sha256 := counted
  parseGraph _ := .ok Plan.owned.graph
  parsePlan _ := .ok Plan.owned
  parseEvent text := .ok (if text == preparedEvent.canonical then preparedEvent else cancelledEvent)
  parseValue _ := .error "EOF while parsing a value"

/-- The call that prepares the run, and the one that cancels it. -/
def Call.prepares : Call := { Call.ownerless with plan := Plan.owned, event := preparedEvent }

def Call.cancels : Call :=
  { Call.prepares with previous := some preparedEvent, event := cancelledEvent }

def Db.cancelled : Db where
  runs := (∅ : Table String).insert "r" Plan.owned.canonical
  events := [⟨"r", 0, preparedEvent.canonical⟩, ⟨"r", 1, cancelledEvent.canonical⟩]

set_option synthInstance.maxSize 256 in
theorem trace_cancelled : ((trace Outside.counting Store.sample { runs := ∅, events := [] }
      [Call.prepares, Call.cancels]).map fun e => (e.result.toOption, e.after.runs.toList,
        e.after.events.map fun r => (r.requestId, r.ordinal, r.canonical))) =
    [(some (), [("r", Plan.owned.canonical)], [("r", 0, preparedEvent.canonical)]),
      (some (), [("r", Plan.owned.canonical)],
        [("r", 0, preparedEvent.canonical), ("r", 1, cancelledEvent.canonical)])] := by
  decide +kernel

theorem eq_ok_of_toOption {r : Result Unit} (h : r.toOption = some ()) : r = .ok () := by
  cases r with
  | ok _ => rfl
  | error e => cases h

/-- Both calls return. -/
theorem calls_cancelled : ∃ prepared cancelled,
    trace Outside.counting Store.sample { runs := ∅, events := [] } [Call.prepares, Call.cancels] =
      [prepared, cancelled] ∧
    prepared.result = .ok () ∧ cancelled.result = .ok () ∧ cancelled.call = Call.cancels ∧
    cancelled.after = Db.cancelled := by
  obtain ⟨prepared, rest, htrace, hprepared, hrest⟩ := List.map_eq_cons_iff.mp trace_cancelled
  obtain ⟨cancelled, rest, rfl, hcancelled, hnil⟩ := List.map_eq_cons_iff.mp hrest
  cases List.map_eq_nil_iff.mp hnil
  have hcalls := @trace_calls Outside.counting Store.sample [Call.prepares, Call.cancels]
    { runs := ∅, events := [] }
  rw [htrace] at hcalls
  simp only [Prod.mk.injEq] at hprepared hcancelled
  refine ⟨prepared, cancelled, htrace, eq_ok_of_toOption hprepared.1, eq_ok_of_toOption hcancelled.1,
    (List.cons.inj (List.cons.inj hcalls).2).1, ?_⟩
  obtain ⟨-, hruns, hevents⟩ := hcancelled
  have hmap : Function.Injective fun r : Row => (r.requestId, r.ordinal, r.canonical) := by
    rintro ⟨_, _, _⟩ ⟨_, _, _⟩ h
    cases h
    rfl
  have hruns : cancelled.after.runs = Db.cancelled.runs :=
    Std.ExtTreeMap.toList_inj.mp (hruns.trans rfl)
  have hevents : cancelled.after.events = Db.cancelled.events :=
    List.map_injective_iff.mpr hmap (hevents.trans rfl)
  cases hafter : cancelled.after
  rw [hafter] at hruns hevents
  exact congr (congrArg Db.mk hruns) hevents

/-- The two calls return, and the chain they leave is the plan's. -/
theorem dag_runs_follow_plan_cancelled : ∃ prepared cancelled,
    trace Outside.counting Store.sample { runs := ∅, events := [] } [Call.prepares, Call.cancels] =
      [prepared, cancelled] ∧
    prepared.result = .ok () ∧ cancelled.result = .ok () ∧ cancelled.after = Db.cancelled ∧
    ∃ run x events, Store.sample.load Outside.counting Call.cancels.env.inside Db.cancelled "r" =
        .ok run ∧
      Chain Outside.counting Store.sample Db.cancelled "r" Plan.owned x events run.cursor ∧
      events.getLast? = some cancelledEvent ∧ run.outputs = completedOutputs events := by
  obtain ⟨prepared, cancelled, htrace, hprepared, hcancelled, hcall, hafter⟩ := calls_cancelled
  have hfollows := (dag_runs_follow_plan Outside.counting Store.sample
    [Call.prepares, Call.cancels] cancelled (by simp [htrace])).2.1 hcancelled
  rw [hcall, hafter] at hfollows
  exact ⟨prepared, cancelled, htrace, hprepared, hcancelled, hafter, hfollows⟩

end Runs

end LumaOS.Workflow
