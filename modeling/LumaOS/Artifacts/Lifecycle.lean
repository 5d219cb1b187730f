import LumaOS.Artifacts.Calls
import LumaOS.Artifacts.Invoice

/-!
# What a call does to its workflow

`run`, `provide_manual_rows` and `cancel`, seen from one workflow and its steps. A call of `run`
works from the update that made the workflow `RUNNING` to its own last update (`Stage`); `Moves`
lists what one transaction of a call in a stage writes, and which stage comes next.

* `follows_start`, `follows_body`, `follows_handler`: the pieces of `run` keep to it.
* **`follows_invoice`**: every call does.
-/

namespace LumaOS.Artifacts

open LumaOS.Base LumaOS.Text LumaOS.Json

open Prog Proc

/-- A call on the workflow. -/
inductive InvoiceCall where
  | run (r : Run)
  | provideManualRows (owner : String) (normalizeManualRow : Nat → Row → Except Failure Row)
      (rows : List Row)
  | cancel (owner : String)

def InvoiceCall.call (sha256 : Bytes → Vector UInt8 32) (workflowId : String) :
    InvoiceCall → Call View
  | run r => { r with workflowId }.call sha256
  | provideManualRows owner normalizeManualRow rows =>
    Artifacts.provideManualRows owner workflowId normalizeManualRow rows
  | cancel owner => Artifacts.cancel owner workflowId

/-! ## The abstract calls -/

/-- Where a call is: before its first update, at work under an attempt, past the update to
`SUCCEEDED`, or past its last update. -/
inductive Stage where
  | idle
  | working (owner : String) (attempt : Nat)
  | closed
  | ended

/-- In the `try` of a run. -/
def Stage.Begun : Stage → Prop
  | working _ _ | closed => True
  | _ => False

section Moves

variable (workflowId : String)

/-- The stored state. -/
def Database.stateOf (db : Database) : Option WorkflowState :=
  db.workflows[workflowId]?.map (·.state)

def Database.attemptOf (db : Database) : Option Nat := db.workflows[workflowId]?.map (·.attempt)

/-- The row `w` becomes `w'`, of the same owner; no artifact changes. -/
structure Writes (db db' : Database) (w w' : Workflow) : Prop where
  before : db.workflows[workflowId]? = some w
  after : db'.workflows[workflowId]? = some w'
  owner : w'.owner = w.owner
  versions : db'.versions = db.versions

/-- The steps of a call. -/
inductive Moves : Stage → Action → Database → Database → Stage → Prop where
  | quiet {stage : Stage} {label : Action} {db db' : Database}
      (hrow : db'.workflows = db.workflows) (hversions : db'.versions = db.versions) :
      Moves stage label db db' stage
  | commit {owner : String} {attempt : Nat} {db db' : Database}
      (hrow : db'.workflows = db.workflows)
      (hrunning : db.stateOf workflowId = some .running) :
      Moves (.working owner attempt) .commit db db' (.working owner attempt)
  | begin {db db' : Database} {w w' : Workflow} (h : Writes workflowId db db' w w')
      (hopen : Run.closedTo w.state = false) (hstate : w'.state = .running)
      (hattempt : w'.attempt = w.attempt + 1) :
      Moves .idle .begin db db' (.working w.owner w'.attempt)
  | succeed {owner : String} {attempt : Nat} {db db' : Database} {w w' : Workflow}
      (h : Writes workflowId db db' w w') (hrunning : w.state = .running)
      (hstate : w'.state = .succeeded) :
      Moves (.working owner attempt) .succeed db db' .closed
  | late {owner : String} {attempt : Nat} {db : Database}
      (hstate : db.stateOf workflowId ≠ some .running) :
      Moves (.working owner attempt) .succeed db db .closed
  | wait {stage : Stage} {db db' : Database} {w w' : Workflow} (h : Writes workflowId db db' w w')
      (hstage : stage.Begun) : Moves stage .wait db db' .ended
  | fail {stage : Stage} {db db' : Database} {w w' : Workflow} (h : Writes workflowId db db' w w')
      (hstage : stage.Begun) : Moves stage .fail db db' .ended
  | manual {db db' : Database} {w w' : Workflow} (h : Writes workflowId db db' w w')
      (hstate : w'.state = .validated) (hattempt : w'.attempt = w.attempt) :
      Moves .idle .manual db db' .idle
  | cancel {db db' : Database} {w w' : Workflow} (h : Writes workflowId db db' w w')
      (hstate : w'.state = .cancelled) (hattempt : w'.attempt = w.attempt) :
      Moves .idle .cancel db db' .idle

/-- What a call at work knows: the row is its owner's. -/
def Stage.Owns (db : Database) : Stage → Prop
  | working owner _ => ∃ w, db.workflows[workflowId]? = some w ∧ w.owner = owner
  | _ => True

end Moves

/-! ## The calls follow -/

section Follows

variable {sha256 : Bytes → Vector UInt8 32} {workflowId owner : String} {stage : Stage}
  {db : Database} {α : Type}

abbrev FollowsStage (workflowId : String) (p : Call α) (stage : Stage)
    (Q : Stage → Except Failure α → Prop) : Prop :=
  p.Follows (Moves workflowId) (fun stage db => stage.Owns workflowId db) stage Q

/-- A body that touches neither the workflows nor the versions. -/
def Quiet (body : Body α) : Prop :=
  ∀ db, Returns body db fun _ db' => db'.workflows = db.workflows ∧ db'.versions = db.versions

/-- The call ends in the stage it began in. -/
def Stays (stage stage' : Stage) (_ : Except Failure α) : Prop := stage' = stage

theorem follows_quiet {label : Action} {body : Body α} (h : Quiet body) :
    FollowsStage workflowId (transaction label body) stage (Stays stage) :=
  follows_transaction (fun db _ => (h db).mono fun _ _ hq => ⟨stage, .quiet hq.1 hq.2, rfl⟩)
    (fun _ _ => .quiet rfl rfl) fun _ => rfl

theorem quiet_look {f : Database → Except Failure α} :
    Quiet (do let db ← get; (f db : Except Failure α)) :=
  fun _ => returns_bind_get (returns_lift fun _ _ => ⟨rfl, rfl⟩)

theorem stays_bind {β : Type} {p : Call α} {f : α → Call β}
    {Q : Stage → Except Failure β → Prop} (h : FollowsStage workflowId p stage (Stays stage))
    (hf : ∀ a, FollowsStage workflowId (f a) stage Q) (herror : ∀ e, Q stage (.error e)) :
    FollowsStage workflowId (p >>= f) stage Q := by
  refine follows_bind h ?_ ?_
  · rintro _ a rfl
    exact hf a
  · rintro _ e rfl
    exact herror e

theorem stays_getWorkflow (owner workflowId' : String) :
    FollowsStage workflowId (getWorkflow owner workflowId') stage (Stays stage) :=
  follows_quiet fun _ => returns_bind_get (returns_bind_lift fun _ _ => returns_pure ⟨rfl, rfl⟩)

theorem stays_step (stepId : String) (state : StepState) (increment : Bool) (error : Option Value) :
    FollowsStage workflowId (step workflowId stepId state increment error) stage (Stays stage) :=
  follows_quiet fun _ => returns_bind_get (returns_bind_lift fun _ _ =>
    returns_bind_raiseIf fun _ => returns_modify ⟨rfl, rfl⟩)

/-! ### `create_bytes` under the workflow -/

theorem stays_privately : FollowsStage workflowId privately stage (Stays stage) :=
  follows_quiet fun _ => returns_pure ⟨rfl, rfl⟩

theorem stays_storeBlob (content : Bytes) :
    FollowsStage workflowId (storeBlob sha256 content) stage (Stays stage) := by
  unfold storeBlob
  refine stays_bind stays_privately (fun _ => ?_) fun _ => rfl
  refine stays_bind (follows_quiet fun _ => returns_bind_get (returns_pure ⟨rfl, rfl⟩))
    (fun present => ?_) fun _ => rfl
  cases present with
  | true =>
    refine stays_bind (follows_quiet quiet_look) (fun _ => ?_) fun _ => rfl
    exact follows_bind_lift (fun _ _ => rfl) fun _ => rfl
  | false =>
    refine stays_bind stays_privately (fun _ => ?_) fun _ => rfl
    refine stays_bind (follows_quiet fun db => returns_modify ?_) (fun _ => ?_) fun _ => rfl
    · obtain ⟨-, hv, -, hw⟩ := linked_tables db (contentHash sha256 content) content
      exact ⟨hw, hv⟩
    · exact stays_bind stays_privately (fun _ => rfl) fun _ => rfl

/-- A write transaction of an artifact returns only while the workflow runs. -/
theorem returns_commit_running {c : Create} {hash : String}
    (hworkflow : c.workflowId = some workflowId) :
    Returns (c.commit hash) db fun _ db' =>
      db'.workflows = db.workflows ∧ db.stateOf workflowId = some .running := by
  unfold Create.commit
  refine returns_bind_get (returns_bind_lift fun _ hrunning => ?_)
  have hstate : db.stateOf workflowId = some .running := by
    rw [hworkflow] at hrunning
    unfold Database.assertWorkflowRunning at hrunning
    have hany := raiseIf_eq_ok.mp hrunning
    rw [Bool.not_eq_false'] at hany
    unfold Database.stateOf
    cases hrow : db.workflows[workflowId]? with
    | none => simp [hrow] at hany
    | some w =>
      rw [hrow] at hany
      simp only [Option.any_some, Bool.and_eq_true, beq_iff_eq] at hany
      rw [Option.map_some, hany.2]
  split
  · exact returns_bind_raiseIf fun _ => returns_bind_lift fun _ _ => returns_pure ⟨rfl, hstate⟩
  · refine returns_bind ((returns_insertArtifact _).mono ?_)
    rintro _ db₁ ⟨-, rfl⟩
    refine returns_bind ((returns_insertVersion _).mono ?_)
    rintro _ db₂ rfl
    refine returns_bind ((returns_insertReceipt _).mono ?_)
    rintro _ db₃ ⟨-, rfl⟩
    exact returns_pure ⟨rfl, hstate⟩

theorem stays_getVersion (owner id : String) (version : Nat) :
    FollowsStage workflowId (getVersion owner id version) stage (Stays stage) :=
  follows_quiet quiet_look

theorem stays_create {c : Create} {attempt : Nat} (hworkflow : c.workflowId = some workflowId) :
    FollowsStage workflowId (c.call sha256) (.working owner attempt)
      (Stays (.working owner attempt)) := by
  unfold Create.call
  refine follows_bind_lift (fun _ _ => ?_) fun _ => rfl
  refine stays_bind ?_ (fun found => ?_) fun _ => rfl
  · unfold findReceipt
    split
    · exact rfl
    · exact follows_quiet fun _ => returns_bind_get (returns_pure ⟨rfl, rfl⟩)
  · cases found with
    | some receipt =>
      exact follows_bind_lift (fun _ _ => stays_getVersion ..) fun _ => rfl
    | none =>
      unfold Create.store
      refine stays_bind ?_ (fun _ => stays_bind (stays_storeBlob _) (fun hash => ?_) fun _ => rfl)
        fun _ => rfl
      · unfold checkWorkflow
        split
        · exact rfl
        · exact follows_quiet quiet_look
      · refine stays_bind ?_ (fun committed => ?_) fun _ => rfl
        · refine follows_transaction (fun db _ => (returns_commit_running hworkflow).mono ?_)
            (fun _ _ => .quiet rfl rfl) fun _ => rfl
          intro _ db' h
          exact ⟨_, .commit h.1 h.2, rfl⟩
        · cases committed with
          | some won => exact rfl
          | none => exact stays_getVersion ..

/-! ### The updates of the row -/

/-- What an update does: it writes a row of the owner that passes the guard, or there is none. -/
theorem returns_updateWorkflow (workflowId owner : String) (guard : WorkflowState → Bool)
    (f : Workflow → Workflow) (howner : ∀ w, (f w).owner = w.owner) (db : Database) :
    Returns (Database.updateWorkflow workflowId owner guard f) db fun changed db' =>
      if changed then ∃ w, Writes workflowId db db' w (f w) ∧ w.owner = owner ∧ guard w.state = true
      else db' = db ∧ ∀ w, db.workflows[workflowId]? = some w → w.owner = owner →
        guard w.state = false := by
  unfold Database.updateWorkflow
  refine returns_bind_get ?_
  split
  · rename_i w hw
    obtain ⟨hfound, hguard⟩ := Option.filter_eq_some_iff.mp hw
    obtain ⟨hrow, heq⟩ := Option.filter_eq_some_iff.mp hfound
    refine returns_bind_modify (returns_pure ?_)
    rw [if_pos rfl]
    exact ⟨w, ⟨hrow, Table.get_insert_self, howner w, rfl⟩, by simpa using heq, hguard⟩
  · rename_i hnone
    refine returns_pure ⟨rfl, fun w hrow heq => ?_⟩
    rw [Option.filter_eq_none_iff] at hnone
    have hno := hnone w (Option.filter_eq_some_iff.mpr ⟨hrow, by simpa using heq⟩)
    simpa using hno

/-- Updating steps changes nothing else. -/
theorem Writes.steps {db' : Database} {w w' : Workflow} (h : Writes workflowId db db' w w')
    (steps : List Step) : Writes workflowId db { db' with steps } w w' :=
  ⟨h.before, h.after, h.owner, h.versions⟩

/-- The update of a call with the update of its steps after it. -/
theorem follows_update {label : Action} {f : Workflow → Workflow} {guard : Step → Bool}
    {g : Step → Step} {stage' : Stage} {Q : Stage → Except Failure Unit → Prop}
    (howner : ∀ w, (f w).owner = w.owner)
    (hmoves : ∀ db db' w, Writes workflowId db db' w (f w) →
      Moves workflowId stage label db db' stage')
    (hwrites : Q stage' (.ok ())) (hnone : ∀ r, Q stage r) :
    FollowsStage workflowId (transaction label do
      let _ ← Database.updateWorkflow workflowId owner (fun _ => true) f
      Database.updateSteps workflowId guard g) stage Q := by
  refine follows_transaction (fun db _ => ?_) (fun _ _ => .quiet rfl rfl) fun e => hnone _
  refine returns_bind ((returns_updateWorkflow _ _ _ f howner db).mono fun changed db' h => ?_)
  cases changed with
  | true =>
    rw [if_pos rfl] at h
    obtain ⟨w, hw, -⟩ := h
    exact returns_modify ⟨stage', hmoves _ _ w (hw.steps _), hwrites⟩
  | false =>
    rw [if_neg (by decide)] at h
    obtain ⟨rfl, -⟩ := h
    exact returns_modify ⟨stage, .quiet rfl rfl, hnone _⟩

/-! ### `cancel`, `provide_manual_rows` and `run` -/

theorem follows_cancel :
    FollowsStage workflowId (cancel owner workflowId) .idle fun _ _ => True := by
  unfold cancel
  refine stays_bind (stays_getWorkflow ..) (fun view => ?_) fun _ => trivial
  refine follows_bind_lift (fun _ _ => ?_) fun _ => trivial
  refine stays_bind (follows_update (fun _ => rfl)
    (fun _ _ _ h => .cancel h rfl rfl) rfl fun _ => rfl) (fun _ => ?_) fun _ => trivial
  exact (stays_getWorkflow ..).mono fun _ _ _ => trivial

theorem follows_provideManualRows (normalizeManualRow : Nat → Row → Except Failure Row)
    (rows : List Row) :
    FollowsStage workflowId (provideManualRows owner workflowId normalizeManualRow rows) .idle
      fun _ _ => True := by
  unfold provideManualRows
  refine stays_bind (stays_getWorkflow ..) (fun view => ?_) fun _ => trivial
  refine follows_bind_lift (fun _ _ => follows_bind_lift (fun _ _ => follows_bind_lift
    (fun normalized _ => ?_) fun _ => trivial) fun _ => trivial) fun _ => trivial
  refine stays_bind (follows_update (fun _ => rfl)
    (fun _ _ _ h => .manual h rfl rfl) rfl fun _ => rfl) (fun _ => ?_) fun _ => trivial
  exact (stays_getWorkflow ..).mono fun _ _ _ => trivial

namespace Run

variable {r : Run} {attempt : Nat}

theorem stays_during {stepId : String} {work : Call α}
    (h : FollowsStage r.workflowId work stage (Stays stage)) :
    FollowsStage r.workflowId (r.during stepId work) stage (Stays stage) := by
  unfold during
  refine stays_bind (stays_step ..) (fun _ => stays_bind h (fun a => ?_) fun _ => rfl) fun _ => rfl
  exact stays_bind (stays_step ..) (fun _ => rfl) fun _ => rfl

/-- The body of the `try` ends at work or past the update to `SUCCEEDED`. -/
theorem follows_body (w : Workflow) :
    FollowsStage r.workflowId (r.body sha256 w) (.working r.owner attempt) fun stage _ =>
      stage.Begun := by
  unfold body
  refine stays_bind (stays_during rfl) (fun sources => ?_) fun _ => trivial
  refine stays_bind (stays_during rfl) (fun rows => ?_) fun _ => trivial
  refine stays_bind (stays_during rfl) (fun aggregates => ?_) fun _ => trivial
  refine stays_bind (stays_during (stays_create rfl)) (fun csv => ?_) fun _ => trivial
  refine stays_bind (stays_during (stays_create rfl)) (fun report => ?_) fun _ => trivial
  refine follows_bind (Q := fun stage result => stage.Begun ∧ ∀ a, result = .ok a → stage = .closed)
    ?_ ?_ fun _ _ h => h.1
  · have hupdate := returns_updateWorkflow r.workflowId r.owner (· == .running)
      (succeeded aggregates rows csv report) fun _ => rfl
    refine follows_transaction (fun db hdb => (hupdate db).mono ?_)
      (fun _ _ => .quiet rfl rfl) fun _ => ⟨trivial, fun _ he => by cases he⟩
    intro changed db' h
    refine ⟨.closed, ?_, trivial, fun _ _ => rfl⟩
    cases changed with
    | true =>
      rw [if_pos rfl] at h
      obtain ⟨w, hw, -, hrunning⟩ := h
      exact .succeed hw (by simpa using hrunning) rfl
    | false =>
      rw [if_neg (by decide)] at h
      obtain ⟨rfl, hnone⟩ := h
      obtain ⟨w, hrow, howner⟩ := hdb
      refine .late ?_
      have hguard := hnone w hrow howner
      simp only [Database.stateOf, hrow, Option.map_some, ne_eq, Option.some.injEq]
      simpa using hguard
  · rintro stage _ ⟨-, hclosed⟩
    obtain rfl := hclosed _ rfl
    refine (stays_getWorkflow ..).mono fun stage' _ hstage => ?_
    obtain rfl : stage' = .closed := hstage
    exact trivial

theorem follows_handler (hstage : stage.Begun) (e : Failure) :
    FollowsStage r.workflowId (r.handler e) stage fun _ _ => True := by
  have hfailed : FollowsStage r.workflowId (r.failed e) stage fun _ _ => True := by
    unfold failed
    refine stays_bind (stays_getWorkflow ..) (fun current => ?_) fun _ => trivial
    split
    · exact trivial
    · refine follows_bind (follows_update (Q := fun _ _ => True) (fun _ => rfl)
        (fun _ _ _ h => .fail h hstage) trivial fun _ => trivial) (fun _ _ _ => ?_)
        fun _ _ _ => trivial
      exact follows_raise trivial
  cases e with
  | needsManualInput issues =>
    refine follows_bind (Q := fun _ _ => True) ?_ (fun stage' _ _ => ?_) fun _ _ _ => trivial
    · have hupdate := returns_updateWorkflow r.workflowId r.owner (fun _ => true) (waiting issues)
        fun _ => rfl
      refine follows_transaction (fun db _ => (hupdate db).mono ?_) (fun _ _ => .quiet rfl rfl)
        fun _ => trivial
      intro changed db' h
      cases changed with
      | true =>
        rw [if_pos rfl] at h
        obtain ⟨w, hw, -⟩ := h
        exact ⟨.ended, .wait hw hstage, trivial⟩
      | false =>
        rw [if_neg (by decide)] at h
        obtain ⟨rfl, -⟩ := h
        exact ⟨stage, .quiet rfl rfl, trivial⟩
    · refine stays_bind (stays_step ..) (fun _ => ?_) fun _ => trivial
      exact (stays_getWorkflow ..).mono fun _ _ _ => trivial
  | _ => exact hfailed

theorem follows_start (w : Workflow) :
    FollowsStage r.workflowId (r.start sha256 w) .idle fun _ _ => True := by
  unfold start
  refine follows_bind (Q := fun stage result => ∀ changed, result = .ok changed →
      if changed then ∃ attempt, stage = .working r.owner attempt else stage = .idle) ?_ ?_
    fun _ _ _ => trivial
  · have hupdate := returns_updateWorkflow r.workflowId r.owner (fun state => !closedTo state)
      started fun _ => rfl
    refine follows_transaction (fun db _ => (hupdate db).mono ?_) (fun _ _ => .quiet rfl rfl)
      fun _ _ he => by cases he
    intro changed db' h
    cases changed with
    | true =>
      rw [if_pos rfl] at h
      obtain ⟨w, hw, howner, hopen⟩ := h
      refine ⟨.working w.owner (w.attempt + 1),
        .begin hw (by simpa using hopen) rfl rfl, fun changed he => ?_⟩
      cases he
      rw [if_pos rfl]
      exact ⟨_, by rw [howner]⟩
    | false =>
      rw [if_neg (by decide)] at h
      obtain ⟨rfl, -⟩ := h
      refine ⟨.idle, .quiet rfl rfl, fun changed he => ?_⟩
      cases he
      rfl
  · intro stage changed h
    have h := h changed rfl
    cases changed with
    | true =>
      rw [if_pos rfl] at h ⊢
      obtain ⟨attempt, rfl⟩ := h
      exact follows_tryCatch (follows_body w) (fun _ _ _ => trivial) fun _ e hstage =>
        follows_handler hstage e
    | false =>
      rw [if_neg (by decide)] at h ⊢
      subst h
      exact (stays_getWorkflow ..).mono fun _ _ _ => trivial

theorem follows_call : FollowsStage r.workflowId (r.call sha256) .idle fun _ _ => True := by
  unfold call
  refine stays_bind (stays_getWorkflow ..) (fun view => ?_) fun _ => trivial
  split
  · exact trivial
  · exact trivial
  · exact trivial
  · split
    · exact trivial
    · exact follows_start _
  · exact follows_start _

end Run

/-- **The calls follow their stages.** -/
theorem follows_invoice (c : InvoiceCall) :
    FollowsStage workflowId (c.call sha256 workflowId) .idle fun _ _ => True := by
  cases c with
  | run r => exact Run.follows_call (r := { r with workflowId })
  | provideManualRows owner normalizeManualRow rows => exact follows_provideManualRows ..
  | cancel owner => exact follows_cancel

end Follows

end LumaOS.Artifacts
