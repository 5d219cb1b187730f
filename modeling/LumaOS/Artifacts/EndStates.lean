import LumaOS.Artifacts.Lifecycle

/-!
# End states of the invoice workflow

Any number of `run`, `provide_manual_rows` and `cancel` calls on one workflow, one transaction at a
time, with any of them failing.

The four unguarded updates break the law of the end states: a workflow that was cancelled between
the look and the update of `provide_manual_rows` is `VALIDATED` again
(`manual_rows_reopen_cancelled`). `timely` asks that they find a state that their calls looked for.
Then `Lawful` is the invariant: at most one run is at work, and while it is the workflow is
`RUNNING` under its attempt, or cancelled.

* **`end_states_final_when`**: if every unguarded update is timely, `SUCCEEDED` and `CANCELLED` are
  final, at most one run is at work, and artifacts are committed by the run of the current period.
-/

namespace LumaOS.Artifacts

open LumaOS.Base LumaOS.Text

section Law

variable (workflowId : String)

/-- An unguarded update finds a state that its call looked for. -/
def timely (t : Taken Action Database) : Bool :=
  match t.label with
  | .wait | .fail => t.before.stateOf workflowId == some .running
  | .manual => (t.before.stateOf workflowId).all takesRows
  | .cancel => t.before.stateOf workflowId != some .succeeded
  | _ => true

/-- The action makes the workflow `RUNNING`. -/
structure Begins (t : Taken Action Database) : Prop where
  label : t.label = .begin
  before : t.before.stateOf workflowId ≠ some .running
  after : t.after.stateOf workflowId = some .running

/-- The action is the last update of a run. -/
def Finishes (t : Taken Action Database) : Prop :=
  t.label = .succeed ∨ t.label = .wait ∨ t.label = .fail

/-- The action commits an artifact for the run of the current period: the workflow is `RUNNING`, and
the same call made it so under the attempt it has. -/
def CommitsCurrent (history : List (Taken Action Database)) (t : Taken Action Database) : Prop :=
  t.before.stateOf workflowId = some .running ∧ ∃ u ∈ history, u.call = t.call ∧
    Begins workflowId u ∧ u.after.attemptOf workflowId = t.before.attemptOf workflowId

/-- **The invariant of a timely run.** -/
structure Lawful (history : List (Taken Action Database)) (db : Database) (stages : Nat → Stage) :
    Prop where
  alone : ∀ {i j owner attempt owner' attempt'}, stages i = .working owner attempt →
    stages j = .working owner' attempt' → i = j
  working : ∀ {i owner attempt}, stages i = .working owner attempt →
    ∃ w, db.workflows[workflowId]? = some w ∧ w.owner = owner ∧ w.attempt = attempt ∧
      (w.state = .running ∨ w.state = .cancelled)
  closed : ∀ {i}, stages i = .closed →
    ∃ w, db.workflows[workflowId]? = some w ∧ (w.state = .succeeded ∨ w.state = .cancelled)
  began : ∀ t ∈ history, Begins workflowId t →
    (∃ u ∈ history, u.call = t.call ∧ Finishes u) ∨
      ∃ owner attempt, stages t.call = .working owner attempt
  started : ∀ {i owner attempt}, stages i = .working owner attempt →
    ∃ t ∈ history, t.call = i ∧ Begins workflowId t ∧ t.after.attemptOf workflowId = some attempt
  committed : ∀ t ∈ history, t.before.versions ≠ t.after.versions →
    CommitsCurrent workflowId history t

end Law

variable {workflowId : String} {history : List (Taken Action Database)} {db db' : Database}
  {stages : Nat → Stage} {t : Taken Action Database} {i : Nat} {label : Action} {stage : Stage}
  {w w' : Workflow}

theorem stateOf_eq_some (h : db.workflows[workflowId]? = some w) :
    db.stateOf workflowId = some w.state := by
  unfold Database.stateOf
  rw [h, Option.map_some]

theorem attemptOf_eq_some (h : db.workflows[workflowId]? = some w) :
    db.attemptOf workflowId = some w.attempt := by
  unfold Database.attemptOf
  rw [h, Option.map_some]

theorem CommitsCurrent.append {rest : List (Taken Action Database)}
    (h : CommitsCurrent workflowId history t) : CommitsCurrent workflowId (history ++ rest) t := by
  obtain ⟨hrunning, u, hu, hcall⟩ := h
  exact ⟨hrunning, u, List.mem_append_left _ hu, hcall⟩

/-- The history part of the invariant, after an action that commits nothing or commits for the
current run. -/
theorem Lawful.committed_append (h : Lawful workflowId history db stages)
    (ht : t.before.versions ≠ t.after.versions → CommitsCurrent workflowId history t) :
    ∀ u ∈ history ++ [t], u.before.versions ≠ u.after.versions →
      CommitsCurrent workflowId (history ++ [t]) u := by
  intro u hu hchanged
  rcases List.mem_append.mp hu with hu | hu
  · exact (h.committed u hu hchanged).append
  · rw [List.mem_singleton.mp hu] at hchanged ⊢
    exact (ht hchanged).append

/-- The same, for an action that does not begin a run, where no run at work is lost but by its own
last update. -/
theorem Lawful.began_append (h : Lawful workflowId history db stages) {stages' : Nat → Stage}
    (ht : ¬Begins workflowId t)
    (hstages : ∀ {i owner attempt}, stages i = .working owner attempt →
      stages' i = .working owner attempt ∨ (t.call = i ∧ Finishes t)) :
    ∀ u ∈ history ++ [t], Begins workflowId u →
      (∃ v ∈ history ++ [t], v.call = u.call ∧ Finishes v) ∨
        ∃ owner attempt, stages' u.call = .working owner attempt := by
  intro u hu hbegins
  rcases List.mem_append.mp hu with hu | hu
  · rcases h.began u hu hbegins with ⟨v, hv, hcall⟩ | ⟨owner, attempt, hworking⟩
    · exact .inl ⟨v, List.mem_append_left _ hv, hcall⟩
    · rcases hstages hworking with hkept | ⟨hcall, hfinishes⟩
      · exact .inr ⟨owner, attempt, hkept⟩
      · exact .inl ⟨t, List.mem_append_right _ (List.mem_singleton.mpr rfl), hcall, hfinishes⟩
  · rw [List.mem_singleton.mp hu] at hbegins
    exact absurd hbegins ht

theorem Lawful.started_append (h : Lawful workflowId history db stages) {i : Nat} {owner : String}
    {attempt : Nat} (hworking : stages i = .working owner attempt) :
    ∃ u ∈ history ++ [t], u.call = i ∧ Begins workflowId u ∧
      u.after.attemptOf workflowId = some attempt := by
  obtain ⟨u, hu, hrest⟩ := h.started hworking
  exact ⟨u, List.mem_append_left _ hu, hrest⟩

/-! ## One step -/

/-- The workflows stay as they are. -/
theorem Lawful.same_rows (h : Lawful workflowId history db stages)
    (hrows : db'.workflows = db.workflows)
    (ht : t.before.versions ≠ t.after.versions → CommitsCurrent workflowId history t)
    (hbegins : ¬Begins workflowId t) : Lawful workflowId (history ++ [t]) db' stages where
  alone := h.alone
  working := hrows ▸ h.working
  closed := hrows ▸ h.closed
  began := h.began_append hbegins .inl
  started := h.started_append
  committed := h.committed_append ht

/-- A call that is not at work rewrites the row, which keeps its attempt. -/
theorem Lawful.rewrite (h : Lawful workflowId history db stages)
    (hw : Writes workflowId db db' w w')
    (hstages : ∀ {i owner attempt}, stages i = .working owner attempt →
      w'.attempt = w.attempt ∧ (w'.state = .running ∨ w'.state = .cancelled))
    (hclosed : ∀ {i}, stages i = .closed → w'.state = .succeeded ∨ w'.state = .cancelled)
    (ht : t.before.versions = t.after.versions) (hbegins : ¬Begins workflowId t) :
    Lawful workflowId (history ++ [t]) db' stages where
  alone := h.alone
  working := by
    intro i owner attempt hworking
    obtain ⟨hattempt, hstate⟩ := hstages hworking
    obtain ⟨v, hv, howner, hkept, -⟩ := h.working hworking
    obtain rfl : v = w := Option.some.inj (hv.symm.trans hw.before)
    exact ⟨w', hw.after, hw.owner.trans howner, hattempt.trans hkept, hstate⟩
  closed := fun hc => ⟨w', hw.after, hclosed hc⟩
  began := h.began_append hbegins .inl
  started := h.started_append
  committed := h.committed_append fun hchanged => absurd ht hchanged

/-- The call at work takes its last update. -/
theorem Lawful.finish (h : Lawful workflowId history db stages) {owner : String} {attempt : Nat}
    (hworking : stages i = .working owner attempt) (hstage : ∀ o k, stage ≠ .working o k)
    (hafter : ∀ {j}, Function.update stages i stage j = .closed →
      ∃ w', db'.workflows[workflowId]? = some w' ∧ (w'.state = .succeeded ∨ w'.state = .cancelled))
    (hcall : t.call = i) (hfinishes : Finishes t) (ht : t.before.versions = t.after.versions) :
    Lawful workflowId (history ++ [t]) db' (Function.update stages i stage) := by
  -- nobody is at work any more
  have hnobody : ∀ {j o k}, Function.update stages i stage j ≠ .working o k := by
    intro j o k hj
    by_cases hij : j = i
    · rw [hij, Function.update_self] at hj
      exact hstage o k hj
    · rw [Function.update_of_ne hij] at hj
      exact hij (h.alone hj hworking)
  have hbegins : ¬Begins workflowId t := by
    intro hb
    have hlabel := hb.label
    rcases hfinishes with hf | hf | hf
    · rw [hf] at hlabel
      cases hlabel
    · rw [hf] at hlabel
      cases hlabel
    · rw [hf] at hlabel
      cases hlabel
  refine ⟨fun hj _ => absurd hj hnobody, fun hj => absurd hj hnobody, hafter,
    h.began_append hbegins fun hj => .inr ⟨hcall.trans (h.alone hworking hj), hfinishes⟩,
    fun hj => absurd hj hnobody, h.committed_append fun hchanged => absurd ht hchanged⟩

/-- A run begins, and nobody was at work. -/
theorem Lawful.begin (h : Lawful workflowId history db stages) (hw : Writes workflowId db db' w w')
    (hopen : Run.closedTo w.state = false) (hstate : w'.state = .running) :
    Lawful workflowId (history ++ [⟨i, .begin, db, db'⟩]) db'
      (Function.update stages i (.working w.owner w'.attempt)) := by
  simp only [Run.closedTo, Bool.or_eq_false_iff, beq_eq_false_iff_ne] at hopen
  have hnobody : ∀ {j o k}, stages j ≠ .working o k := by
    intro j o k hj
    obtain ⟨v, hv, -, -, hrunning⟩ := h.working hj
    obtain rfl : v = w := Option.some.inj (hv.symm.trans hw.before)
    rcases hrunning with hrunning | hcancelled
    · exact hopen.1.1 hrunning
    · exact hopen.2 hcancelled
  have honly : ∀ {j o k}, Function.update stages i (.working w.owner w'.attempt) j = .working o k →
      j = i ∧ o = w.owner ∧ k = w'.attempt := by
    intro j o k hj
    by_cases hij : j = i
    · rw [hij, Function.update_self] at hj
      cases hj
      exact ⟨hij, rfl, rfl⟩
    · rw [Function.update_of_ne hij] at hj
      exact absurd hj hnobody
  have hbegins : Begins workflowId ⟨i, .begin, db, db'⟩ := by
    refine ⟨rfl, ?_, ?_⟩
    · simp [stateOf_eq_some hw.before, hopen.1.1]
    · rw [stateOf_eq_some hw.after, hstate]
  have hnew : ⟨i, .begin, db, db'⟩ ∈ history ++ [⟨i, .begin, db, db'⟩] :=
    List.mem_append_right _ (List.mem_singleton.mpr rfl)
  refine ⟨fun hj hk => (honly hj).1.trans (honly hk).1.symm, fun hj => ?_, fun {j} hj => ?_,
    fun u hu hu' => ?_, fun hj => ?_,
    h.committed_append fun hchanged => absurd hw.versions.symm hchanged⟩
  · obtain ⟨-, rfl, rfl⟩ := honly hj
    exact ⟨w', hw.after, hw.owner, rfl, .inl hstate⟩
  · by_cases hij : j = i
    · rw [hij, Function.update_self] at hj
      cases hj
    · rw [Function.update_of_ne hij] at hj
      obtain ⟨v, hv, hends⟩ := h.closed hj
      obtain rfl : v = w := Option.some.inj (hv.symm.trans hw.before)
      rcases hends with hends | hends
      · exact absurd hends hopen.1.2
      · exact absurd hends hopen.2
  · rcases List.mem_append.mp hu with hu | hu
    · rcases h.began u hu hu' with ⟨v, hv, hcall⟩ | ⟨o, k, hk⟩
      · exact .inl ⟨v, List.mem_append_left _ hv, hcall⟩
      · exact absurd hk hnobody
    · rw [List.mem_singleton.mp hu]
      exact .inr ⟨w.owner, w'.attempt, Function.update_self ..⟩
  · obtain ⟨rfl, -, rfl⟩ := honly hj
    exact ⟨_, hnew, rfl, hbegins, attemptOf_eq_some hw.after⟩

theorem takesRows_of_timely {q : WorkflowState} (h : timely workflowId ⟨i, .manual, db, db'⟩ = true)
    (hq : db.stateOf workflowId = some q) : takesRows q = true := by
  simp only [timely, hq, Option.all_some] at h
  exact h

/-- A label other than `begin` begins nothing. -/
theorem not_begins (h : label ≠ .begin) : ¬Begins workflowId ⟨i, label, db, db'⟩ :=
  fun hb => h hb.label

/-- The run whose last update is timely is at work. -/
theorem Lawful.working_of_running (h : Lawful workflowId history db stages)
    (hstage : (stages i).Begun) (hrunning : db.stateOf workflowId = some .running) :
    ∃ owner attempt, stages i = .working owner attempt := by
  cases hi : stages i with
  | working owner attempt => exact ⟨owner, attempt, rfl⟩
  | closed =>
    obtain ⟨w, hw, hends⟩ := h.closed hi
    rw [stateOf_eq_some hw, Option.some.injEq] at hrunning
    rcases hends with hends | hends
    · rw [hends] at hrunning
      cases hrunning
    · rw [hends] at hrunning
      cases hrunning
  | idle | ended =>
    rw [hi] at hstage
    cases hstage

/-- A timely `wait` or `fail` ends the run. -/
theorem Lawful.ends (h : Lawful workflowId history db stages) (hw : Writes workflowId db db' w w')
    (hstage : (stages i).Begun) (hrunning : db.stateOf workflowId = some .running)
    (hfinishes : Finishes ⟨i, label, db, db'⟩) :
    Lawful workflowId (history ++ [⟨i, label, db, db'⟩]) db' (Function.update stages i .ended) := by
  obtain ⟨owner, attempt, hworking⟩ := h.working_of_running hstage hrunning
  refine h.finish hworking (fun _ _ he => by cases he) (fun {j} hj => ?_) rfl hfinishes
    hw.versions.symm
  by_cases hij : j = i
  · rw [hij, Function.update_self] at hj
    cases hj
  · rw [Function.update_of_ne hij] at hj
    obtain ⟨v, hv, hends⟩ := h.closed hj
    rw [stateOf_eq_some hv, Option.some.injEq] at hrunning
    rw [hrunning] at hends
    rcases hends with hends | hends
    · cases hends
    · cases hends

theorem Lawful.step (h : Lawful workflowId history db stages) {stage' : Stage}
    (hwhen : timely workflowId ⟨i, label, db, db'⟩ = true)
    (hmoves : Moves workflowId (stages i) label db db' stage') :
    Lawful workflowId (history ++ [⟨i, label, db, db'⟩]) db' (Function.update stages i stage') := by
  generalize hi : stages i = stage at hmoves
  cases hmoves with
  | quiet hrow hversions =>
    rw [← hi, Function.update_eq_self]
    refine h.same_rows hrow (fun hchanged => absurd hversions.symm hchanged) fun hb => hb.before ?_
    have hafter := hb.after
    unfold Database.stateOf at hafter ⊢
    rwa [hrow] at hafter
  | commit hrow hrunning =>
    rw [← hi, Function.update_eq_self]
    refine h.same_rows hrow (fun _ => ⟨hrunning, ?_⟩) (not_begins (by decide))
    obtain ⟨u, hu, hcall, hbegins, hattempt⟩ := h.started hi
    obtain ⟨w, hw, -, rfl, -⟩ := h.working hi
    exact ⟨u, hu, hcall, hbegins, hattempt.trans (attemptOf_eq_some hw).symm⟩
  | begin hw hopen hstate hattempt => exact h.begin hw hopen hstate
  | succeed hw hrunning hstate =>
    exact h.finish hi (fun _ _ he => by cases he) (fun _ => ⟨_, hw.after, .inl hstate⟩) rfl
      (.inl rfl) hw.versions.symm
  | late hstate =>
    refine h.finish hi (fun _ _ he => by cases he) (fun _ => ?_) rfl (.inl rfl) rfl
    obtain ⟨w, hw, -, -, hrunning | hcancelled⟩ := h.working hi
    · rw [stateOf_eq_some hw, hrunning] at hstate
      exact absurd rfl hstate
    · exact ⟨w, hw, .inr hcancelled⟩
  | wait hw hstage => exact h.ends hw (hi ▸ hstage) (eq_of_beq hwhen) (.inr (.inl rfl))
  | fail hw hstage => exact h.ends hw (hi ▸ hstage) (eq_of_beq hwhen) (.inr (.inr rfl))
  | manual hw hstate hattempt =>
    rw [← hi, Function.update_eq_self]
    have htakes := takesRows_of_timely hwhen (stateOf_eq_some hw.before)
    -- rows are taken in no state of a run at work, nor in an end state
    refine h.rewrite hw (fun hj => ?_) (fun hj => ?_) hw.versions.symm (not_begins (by decide))
    · obtain ⟨v, hv, -, -, hrunning⟩ := h.working hj
      rw [hw.before] at hv
      cases hv
      rcases hrunning with hrunning | hrunning
      · rw [hrunning] at htakes
        cases htakes
      · rw [hrunning] at htakes
        cases htakes
    · obtain ⟨v, hv, hends⟩ := h.closed hj
      rw [hw.before] at hv
      cases hv
      rcases hends with hends | hends
      · rw [hends] at htakes
        cases htakes
      · rw [hends] at htakes
        cases htakes
  | cancel hw hstate hattempt =>
    rw [← hi, Function.update_eq_self]
    exact h.rewrite hw (fun _ => ⟨hattempt, .inr hstate⟩) (fun _ => .inr hstate) hw.versions.symm
      (not_begins (by decide))

/-- A timely step leaves an end state. -/
theorem Moves.final {stage' : Stage} {q : WorkflowState}
    (hmoves : Moves workflowId stage label db db' stage')
    (hwhen : timely workflowId ⟨i, label, db, db'⟩ = true) (hq : q = .succeeded ∨ q = .cancelled)
    (hstate : db.stateOf workflowId = some q) : db'.stateOf workflowId = some q := by
  have hnot : ¬db.stateOf workflowId = some .running := by
    rw [hstate]
    rcases hq with rfl | rfl
    · decide
    · decide
  cases hmoves with
  | quiet hrow _ | commit hrow _ =>
    unfold Database.stateOf at hstate ⊢
    rwa [hrow]
  | begin hw hopen _ _ =>
    rw [stateOf_eq_some hw.before, Option.some.injEq] at hstate
    rw [hstate] at hopen
    rcases hq with rfl | rfl
    · cases hopen
    · cases hopen
  | succeed hw hrunning _ =>
    exact absurd ((stateOf_eq_some hw.before).trans (by rw [hrunning])) hnot
  | late _ => exact hstate
  | wait hw _ | fail hw _ => exact absurd (eq_of_beq hwhen) hnot
  | manual hw _ _ =>
    have htakes := takesRows_of_timely hwhen hstate
    rcases hq with rfl | rfl
    · cases htakes
    · cases htakes
  | cancel hw hcancelled _ =>
    rcases hq with rfl | rfl
    · exact absurd hstate (bne_iff_ne.mp hwhen)
    · rw [stateOf_eq_some hw.after, hcancelled]

/-! ## Runs -/

theorem Lawful.owns (h : Lawful workflowId history db stages) (i : Nat) :
    (stages i).Owns workflowId db := by
  cases hi : stages i with
  | working owner attempt =>
    obtain ⟨w, hw, howner, -⟩ := h.working hi
    exact ⟨w, hw, howner⟩
  | _ => exact trivial

theorem keeps_lawful : Pool.Keeps (fun _ => Moves workflowId)
    (fun _ stage db => stage.Owns workflowId db) (fun t => timely workflowId t = true)
    (Lawful workflowId) where
  known h i := h.owns i
  step h := fun hwhen hmoves => h.step hwhen hmoves

/-- The calls on a store. -/
def invoicePool (sha256 : Bytes → Vector UInt8 32) (workflowId : String) (db : Database)
    (calls : List InvoiceCall) : Pool Action Database Failure View :=
  .start db (calls.map (InvoiceCall.call sha256 workflowId))

/-- Call `i` is between its update to `RUNNING` and its own last update. -/
structure AtWork (workflowId : String) (p : Pool Action Database Failure View) (i : Nat) :
    Prop where
  begun : ∃ t ∈ p.history, t.call = i ∧ Begins workflowId t
  unfinished : ¬∃ t ∈ p.history, t.call = i ∧ Finishes t

theorem tracks_invoicePool (sha256 : Bytes → Vector UInt8 32) (db : Database)
    (calls : List InvoiceCall) :
    Pool.Tracks (fun _ => Moves workflowId) (fun _ stage db => stage.Owns workflowId db)
      (fun _ _ _ => True) (Lawful workflowId) (invoicePool sha256 workflowId db calls)
      fun _ => .idle where
  calls i call hcall := by
    unfold invoicePool Pool.start at hcall
    rw [List.getElem?_map] at hcall
    obtain ⟨c, -, rfl⟩ := Option.map_eq_some_iff.mp hcall
    exact follows_invoice c
  holds :=
    { alone := fun h => by cases h
      working := fun h => by cases h
      closed := fun h => by cases h
      began := fun _ h => absurd h List.not_mem_nil
      started := fun h => by cases h
      committed := fun _ h => absurd h List.not_mem_nil }

/-- **End states are final when the unguarded updates are timely.** For any calls on the workflow of
any store, in any order and with any failures, if every `wait`, `fail`, `manual` and `cancel` update
finds a state that its call looked for: an end state is never left, at most one run is at work, and
every artifact is committed by the run that made the workflow `RUNNING` for the current period. -/
theorem end_states_final_when (sha256 : Bytes → Vector UInt8 32) (workflowId : String)
    (db : Database) (calls : List InvoiceCall) (ts us : List (Pool.Turn Failure))
    (hwhen : ∀ t ∈ ((invoicePool sha256 workflowId db calls).run (ts ++ us)).history,
      timely workflowId t = true) :
    let p := (invoicePool sha256 workflowId db calls).run ts
    let p' := (invoicePool sha256 workflowId db calls).run (ts ++ us)
    (∀ q, q = .succeeded ∨ q = .cancelled → p.shared.stateOf workflowId = some q →
      p'.shared.stateOf workflowId = some q) ∧
    (∀ i j, AtWork workflowId p' i → AtWork workflowId p' j → i = j) ∧
    ∀ t ∈ p'.history, t.before.versions ≠ t.after.versions →
      CommitsCurrent workflowId p'.history t := by
  intro p p'
  have hrun : p' = p.run us := Pool.run_append ..
  rw [Pool.run_append] at hwhen
  obtain ⟨stages, h⟩ := Pool.rule keeps_lawful (tracks_invoicePool sha256 db calls) ts fun t ht =>
    hwhen t (Pool.history_subset_run _ us ht)
  obtain ⟨stages', h'⟩ := Pool.rule keeps_lawful h us hwhen
  rw [hrun]
  refine ⟨fun q hq hstate => ?_, fun i j hi hj => ?_, h'.holds.committed⟩
  · have hkeeps : Pool.Keeps (fun _ => Moves workflowId)
        (fun _ stage db => stage.Owns workflowId db) (fun t => timely workflowId t = true)
        fun history db stages => Lawful workflowId history db stages ∧
          db.stateOf workflowId = some q := by
      refine ⟨fun h => keeps_lawful.known h.1, ?_⟩
      rintro history db stages ⟨h, hq'⟩ i label db' stage' hwhen hmoves
      exact ⟨h.step hwhen hmoves, hmoves.final hwhen hq hq'⟩
    obtain ⟨_, h''⟩ := Pool.rule hkeeps ⟨h.calls, h.holds, hstate⟩ us hwhen
    exact h''.holds.2
  · have hworking : ∀ {i}, AtWork workflowId (p.run us) i →
        ∃ owner attempt, stages' i = .working owner attempt := by
      rintro i ⟨⟨t, ht, rfl, hbegins⟩, hunfinished⟩
      exact (h'.holds.began t ht hbegins).resolve_left hunfinished
    obtain ⟨_, _, hi⟩ := hworking hi
    obtain ⟨_, _, hj⟩ := hworking hj
    exact h'.holds.alone hi hj

/-! ### An interleaving that is not timely -/

/-- A submitted workflow of `alice`. -/
def sampleStore : Database :=
  .fresh (Std.ExtTreeMap.ofList
    [("w", ⟨"alice", .null, .validated, 0, none, none, none⟩)] compare) []

def sampleTurns (calls : List Nat) : List (Pool.Turn Failure) := calls.map fun i => ⟨i, none⟩

/-- Manual rows for the workflow. -/
def sampleRows : InvoiceCall :=
  .provideManualRows "alice" (fun _ row => .ok row)
    [⟨"2024-01-01", "2024-01", "1.00", "USD", "", ""⟩]

/-- Manual rows are written while a cancellation is under way; more of them come after it. -/
theorem end_states_final_when_cancelled :
    let p := invoicePool (fun _ => Vector.replicate 32 0) "w" sampleStore
      [sampleRows, .cancel "alice", sampleRows]
    (p.run (sampleTurns [0, 1, 0])).shared.stateOf "w" = some .validated ∧
      (p.run (sampleTurns [0, 1, 0, 1] ++ sampleTurns [2, 2, 2])).shared.stateOf "w" =
        some .cancelled := by
  intro p
  have hcancelled : (p.run (sampleTurns [0, 1, 0, 1])).shared.stateOf "w" = some .cancelled := by
    decide
  exact ⟨by decide, (end_states_final_when (fun _ => Vector.replicate 32 0) "w" sampleStore
    [sampleRows, .cancel "alice", sampleRows] (sampleTurns [0, 1, 0, 1]) (sampleTurns [2, 2, 2])
    (by decide)).1 .cancelled (.inr rfl) hcancelled⟩

/-- **Manual rows reopen a cancelled workflow.** Call `0` provides manual rows and looks at a
`VALIDATED` workflow; call `1` cancels it; call `0` then writes `VALIDATED`. -/
theorem manual_rows_reopen_cancelled :
    let p := invoicePool (fun _ => Vector.replicate 32 0) "w" sampleStore
      [.provideManualRows "alice" (fun _ row => .ok row)
          [⟨"2024-01-01", "2024-01", "1.00", "USD", "", ""⟩],
        .cancel "alice"]
    (p.run (sampleTurns [0, 1, 1])).shared.stateOf "w" = some .cancelled ∧
      (p.run (sampleTurns [0, 1, 1] ++ sampleTurns [0])).shared.stateOf "w" = some .validated := by
  decide

end LumaOS.Artifacts
