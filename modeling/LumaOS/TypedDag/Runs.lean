import LumaOS.TypedDag.Values

/-!
# Runs resumed from checkpoints

Any number of runs of one graph, each resumed from the checkpoint published last and each stopped
anywhere. `Running` is the invariant of the trace of them all and the table of the run at hand: the
table is sound, whatever is in it was returned earlier, and every published checkpoint is good and
within the last one, which is within the table. A call, an accepted value and a publication keep it
(`Running.called`, `Running.complete`, `Running.publish`), and so does a new run
(`Running.resumed`).

* **`resumed_equals_uninterrupted`**: over every list of runs, each checkpoint restores what it
  holds, no node is done twice, and a run that gets to the end returns what one run alone does.
-/

namespace LumaOS.TypedDag

open LumaOS.Base LumaOS.Text LumaOS.Json

variable {τ υ : Type}

/-! ## Traces -/

section Traces

variable {trace trace' : List (Happening υ)} {c : DagCheckpoint υ}

theorem latest_append : latest (trace ++ trace') = (latest trace').or (latest trace) := by
  induction trace with
  | nil => simp [latest]
  | cons x trace ih =>
    cases x with
    | called id inputs => exact ih
    | returned id v => exact ih
    | published c =>
      simp only [List.cons_append, latest, ih]
      cases latest trace' <;> simp

theorem mem_of_latest (h : latest trace = some c) : .published c ∈ trace := by
  induction trace with
  | nil => cases h
  | cons x trace ih =>
    cases x with
    | called id inputs | returned id v => exact List.mem_cons_of_mem _ (ih h)
    | published d =>
      simp only [latest] at h
      cases hrest : latest trace with
      | none =>
        rw [hrest] at h
        cases h
        exact List.mem_cons_self
      | some l =>
        rw [hrest] at h
        cases h
        exact List.mem_cons_of_mem _ (ih hrest)

/-- The nodes whose handlers were called. -/
def calls : List (Happening υ) → List String
  | [] => []
  | .called id _ :: rest => id :: calls rest
  | _ :: rest => calls rest

theorem calls_append : calls (trace ++ trace') = calls trace ++ calls trace' := by
  induction trace with
  | nil => rfl
  | cons x trace ih =>
    cases x with
    | called id inputs =>
      simp only [List.cons_append, calls, ih]
    | returned id v => exact ih
    | published c => exact ih

/-- What is published before a node is called does not hold the node. -/
def Once (a b : Happening υ) : Prop :=
  ∀ c id inputs, a = .published c → b = .called id inputs → id ∉ c.completed

/-- A node is called with exactly the outputs that its dependencies returned earlier. -/
def Fed (spec : DagSpec τ) (earlier : List (Happening υ)) (id : String) (inputs : Table υ) : Prop :=
  ∃ node, spec.node id = .ok node ∧ ∀ d,
    (d ∈ node.dependencies → ∃ v, inputs[d]? = some v ∧ .returned d v ∈ earlier) ∧
    (d ∉ node.dependencies → inputs[d]? = none)

/-- Everything called in a trace was fed. -/
def AllFed (spec : DagSpec τ) (trace : List (Happening υ)) : Prop :=
  ∀ earlier id inputs later, trace = earlier ++ .called id inputs :: later →
    Fed spec earlier id inputs

theorem AllFed.snoc {spec : DagSpec τ} (h : AllFed spec trace) {x : Happening υ}
    (hx : ∀ id inputs, x = .called id inputs → Fed spec trace id inputs) :
    AllFed spec (trace ++ [x]) := by
  intro earlier id inputs later heq
  rcases List.eq_nil_or_concat' later with rfl | ⟨later, y, rfl⟩
  · obtain ⟨rfl, hlast⟩ := List.append_inj' heq rfl
    exact hx id inputs (List.singleton_inj.mp hlast)
  · rw [← List.cons_append, ← List.append_assoc] at heq
    obtain ⟨rfl, -⟩ := List.append_inj' heq rfl
    exact h earlier id inputs later rfl

theorem Pairwise.snoc {R : Happening υ → Happening υ → Prop} (h : trace.Pairwise R)
    {x : Happening υ} (hx : ∀ a ∈ trace, R a x) : (trace ++ [x]).Pairwise R := by
  rw [List.pairwise_append]
  refine ⟨h, List.pairwise_singleton .., fun a ha b hb => ?_⟩
  rw [List.mem_singleton.mp hb]
  exact hx a ha

end Traces

/-! ## The invariant -/

section Running

variable (typeName : τ → String) (isInstance : υ → τ → Bool) (sha256 : Bytes → Vector UInt8 32)
  (spec : DagSpec τ) (f : DagNode τ → Table υ → υ)

/-- **The invariant of all runs so far**, with the table of the run at hand. -/
structure Running (trace : List (Happening υ)) (completed : Table υ) : Prop where
  sound : Sound isInstance spec f completed
  returned : ∀ id v, completed[id]? = some v → .returned id v ∈ trace
  good : ∀ c, .published c ∈ trace → Good typeName isInstance sha256 spec f c
  last : ∀ c, .published c ∈ trace → ∃ l, latest trace = some l ∧
    ∀ id, id ∈ c.completed → id ∈ l.completed
  within : ∀ l, latest trace = some l → ∀ (id : String) v, l.completed[id]? = some v →
    completed[id]? = some v
  once : trace.Pairwise Once
  fed : AllFed spec trace

end Running

section Steps

variable {typeName : τ → String} {isInstance : υ → τ → Bool} {sha256 : Bytes → Vector UInt8 32}
  {spec : DagSpec τ} {f : DagNode τ → Table υ → υ} {trace : List (Happening υ)}
  {completed inputs : Table υ} {id : String} {v : υ} {node : DagNode τ}

theorem running_nil : Running typeName isInstance sha256 spec f [] (∅ : Table υ) where
  sound := sound_empty
  returned id v h := by simp at h
  good c h := absurd h List.not_mem_nil
  last c h := absurd h List.not_mem_nil
  within l h := by cases h
  once := .nil
  fed earlier id inputs later h := by
    have := congrArg List.length h
    simp at this

/-- What is published is in the table. -/
theorem Running.completed_of_published
    (h : Running typeName isInstance sha256 spec f trace completed) {c : DagCheckpoint υ}
    (hc : .published c ∈ trace) (hid : id ∈ c.completed) : id ∈ completed := by
  obtain ⟨l, hl, hsubset⟩ := h.last c hc
  obtain ⟨v, hv⟩ := Table.mem_iff_get.mp (hsubset id hid)
  exact Table.mem_iff_get.mpr ⟨v, h.within l hl id v hv⟩

theorem Running.called (h : Running typeName isInstance sha256 spec f trace completed)
    (hnew : id ∉ completed) (hnode : spec.node id = .ok node)
    (hinputs : node.inputs completed = .ok inputs) :
    Running typeName isInstance sha256 spec f (trace ++ [.called id inputs]) completed := by
  have hlatest : latest (trace ++ [.called id inputs]) = latest trace := by
    rw [latest_append]
    rfl
  have hold : ∀ c, .published c ∈ trace ++ [.called id inputs] → .published c ∈ trace := by
    intro c hc
    rcases List.mem_append.mp hc with hc | hc
    · exact hc
    · cases List.mem_singleton.mp hc
  refine ⟨h.sound, fun a w hw => List.mem_append_left _ (h.returned a w hw),
    fun c hc => h.good c (hold c hc), fun c hc => ?_, ?_, Pairwise.snoc h.once ?_, h.fed.snoc ?_⟩
  · rw [hlatest]
    exact h.last c (hold c hc)
  · rw [hlatest]
    exact h.within
  · intro a ha c id' inputs' hpublished hcalled hmem
    subst hpublished
    cases hcalled
    exact hnew (h.completed_of_published ha hmem)
  · intro id' inputs' hcalled
    cases hcalled
    refine ⟨node, hnode, fun d => ⟨fun hd => ?_, (DagNode.inputs_eq_ok hinputs d).2⟩⟩
    obtain ⟨w, hw, hin⟩ := (DagNode.inputs_eq_ok hinputs d).1 hd
    exact ⟨w, hin, h.returned d w hw⟩

theorem Running.complete (h : Running typeName isInstance sha256 spec f trace completed)
    (hnew : id ∉ completed) (hv : Computed isInstance spec f completed id v) :
    Running typeName isInstance sha256 spec f (trace ++ [.returned id v])
      (completed.insert id v) := by
  have hlatest : latest (trace ++ [.returned id v]) = latest trace := by
    rw [latest_append]
    rfl
  have hold : ∀ c, .published c ∈ trace ++ [.returned id v] → .published c ∈ trace := by
    intro c hc
    rcases List.mem_append.mp hc with hc | hc
    · exact hc
    · cases List.mem_singleton.mp hc
  refine ⟨h.sound.insert hnew hv, fun a w hw => ?_, fun c hc => h.good c (hold c hc),
    fun c hc => ?_, fun l hl a w hw => ?_, Pairwise.snoc h.once ?_, h.fed.snoc ?_⟩
  · rw [Table.get_insert] at hw
    split at hw
    · rename_i ha
      cases hw
      subst ha
      exact List.mem_append_right _ (List.mem_singleton.mpr rfl)
    · exact List.mem_append_left _ (h.returned a w hw)
  · rw [hlatest]
    exact h.last c (hold c hc)
  · rw [hlatest] at hl
    have hin := h.within l hl a w hw
    rw [Table.get_insert_ne ?_, hin]
    rintro rfl
    exact hnew (Table.mem_iff_get.mpr ⟨w, hin⟩)
  · intro a _ c id' inputs' _ hcalled
    cases hcalled
  · intro id' inputs' hcalled
    cases hcalled

theorem Running.publish (h : Running typeName isInstance sha256 spec f trace completed) :
    Running typeName isInstance sha256 spec f
      (trace ++ [.published ⟨spec.fingerprint typeName sha256, completed⟩]) completed := by
  have hlatest : latest (trace ++ [.published ⟨spec.fingerprint typeName sha256, completed⟩]) =
      some ⟨spec.fingerprint typeName sha256, completed⟩ := by
    rw [latest_append]
    rfl
  refine ⟨h.sound, fun a w hw => List.mem_append_left _ (h.returned a w hw), fun c hc => ?_,
    fun c hc => ⟨_, hlatest, fun a ha => ?_⟩, fun l hl a w hw => ?_, Pairwise.snoc h.once ?_,
    h.fed.snoc ?_⟩
  · rcases List.mem_append.mp hc with hc | hc
    · exact h.good c hc
    · cases List.mem_singleton.mp hc
      exact ⟨rfl, h.sound⟩
  · rcases List.mem_append.mp hc with hc | hc
    · exact h.completed_of_published hc ha
    · cases List.mem_singleton.mp hc
      exact ha
  · rw [hlatest] at hl
    cases hl
    exact hw
  · intro a _ c id' inputs' _ hcalled
    cases hcalled
  · intro id' inputs' hcalled
    cases hcalled

/-- A new run begins with the table of the last published checkpoint. -/
theorem Running.resumed (h : Running typeName isInstance sha256 spec f trace completed) :
    Running typeName isInstance sha256 spec f trace (taken (latest trace)) := by
  cases hlatest : latest trace with
  | none =>
    refine ⟨sound_empty, fun a w hw => ?_, h.good, h.last, fun l hl => ?_, h.once, h.fed⟩
    · simp [taken] at hw
    · rw [hlatest] at hl
      cases hl
  | some l =>
    refine ⟨(h.good l (mem_of_latest hlatest)).sound,
      fun a w hw => h.returned a w (h.within l hlatest a w hw), h.good, h.last,
      fun l' hl' a w hw => ?_, h.once, h.fed⟩
    rw [hlatest] at hl'
    cases hl'
    exact hw

theorem Running.restore (h : Running typeName isInstance sha256 spec f trace completed) :
    spec.restore typeName isInstance sha256 (latest trace) = .ok (taken (latest trace)) :=
  restore_good fun c hc => h.good c (mem_of_latest hc)

end Steps

/-! ## The executor keeps the invariant -/

section Executor

variable {typeName : τ → String} {isInstance : υ → τ → Bool} {sha256 : Bytes → Vector UInt8 32}
  {spec : DagSpec τ} {f : DagNode τ → Table υ → υ} {env : Env τ υ} {past : List (Happening υ)}
  {order done : List String} {p : Progress υ} {id : String}

/-- **Deterministic handlers**: what a handler returns is what `f` says, whether it returns or
not. -/
def Env.Deterministic (env : Env τ υ) (f : DagNode τ → Table υ → υ) : Prop :=
  ∀ node inputs v, env.handler node inputs = .ok v → v = f node inputs

open Proc

theorem make_fingerprint (completed : Table υ) :
    DagCheckpoint.make (spec.fingerprint typeName sha256) completed =
      .ok ⟨spec.fingerprint typeName sha256, completed⟩ := by
  unfold DagCheckpoint.make
  have hhash : isHash (spec.fingerprint typeName sha256) = true :=
    isHash_hex (by simp)
  rw [hhash]
  rfl

theorem invoke_eq_ok {node : DagNode τ} {inputs : Table υ} {v : υ}
    (h : env.invoke node inputs = .ok v) : env.handler node inputs = .ok v := by
  unfold Env.invoke at h
  split at h
  · rename_i value hvalue
    cases h
    exact hvalue
  · cases h
  · cases h

/-- What a turn of the loop leaves, however it ends. -/
structure Left (typeName : τ → String) (isInstance : υ → τ → Bool)
    (sha256 : Bytes → Vector UInt8 32) (spec : DagSpec τ) (f : DagNode τ → Table υ → υ)
    (past : List (Happening υ)) (visited : List String) (p : Progress υ) : Prop where
  running : Running typeName isInstance sha256 spec f (past ++ p.trace) p.completed
  calls : (calls p.trace).Sublist visited

theorem Left.mono {visited visited' : List String}
    (h : Left typeName isInstance sha256 spec f past visited p)
    (hsublist : visited.Sublist visited') :
    Left typeName isInstance sha256 spec f past visited' p :=
  ⟨h.running, h.calls.trans hsublist⟩

theorem Left.called (h : Left typeName isInstance sha256 spec f past done p)
    (hnew : id ∉ p.completed) {node : DagNode τ} {inputs : Table υ} (hnode : spec.node id = .ok node)
    (hinputs : node.inputs p.completed = .ok inputs) :
    Left typeName isInstance sha256 spec f past (done ++ [id]) (p.log (.called id inputs)) := by
  refine ⟨?_, ?_⟩
  · have := h.running.called hnew hnode hinputs
    rwa [List.append_assoc] at this
  · unfold Progress.log
    rw [calls_append]
    exact h.calls.append (List.Sublist.refl _)

theorem Left.complete {visited : List String}
    (h : Left typeName isInstance sha256 spec f past visited p) (hnew : id ∉ p.completed) {v : υ}
    (hv : Computed isInstance spec f p.completed id v) :
    Left typeName isInstance sha256 spec f past visited (p.complete id v) := by
  refine ⟨?_, ?_⟩
  · have := h.running.complete hnew hv
    rwa [List.append_assoc] at this
  · unfold Progress.complete
    rw [calls_append]
    simpa [TypedDag.calls] using h.calls

theorem ends_publish {visited : List String}
    (h : Left typeName isInstance sha256 spec f past visited p) :
    Ends (env.publish ⟨spec.fingerprint typeName sha256, p.completed⟩) p fun _ p' =>
      Left typeName isInstance sha256 spec f past visited p' ∧ p'.completed = p.completed := by
  unfold Env.publish
  split
  · exact ⟨h, rfl⟩
  · refine ends_bind_lift (fun _ _ => ⟨h, rfl⟩) fun _ _ => ?_
    refine ⟨⟨?_, ?_⟩, rfl⟩
    · have := h.running.publish
      rwa [List.append_assoc] at this
    · show (calls (p.trace ++ _)).Sublist visited
      rw [calls_append]
      simpa [TypedDag.calls] using h.calls

theorem ends_execute (hdet : env.Deterministic f)
    (h : Left typeName isInstance sha256 spec f past done p) (hnew : id ∉ p.completed) :
    Ends (env.execute typeName isInstance sha256 spec id p.completed) p fun r p' =>
      Left typeName isInstance sha256 spec f past (done ++ [id]) p' ∧
        ∀ u, r = .ok u → ∃ v, p'.completed = p.completed.insert id v := by
  have hstay := h.mono (List.sublist_append_left done [id])
  unfold Env.execute
  refine ends_bind_raiseIf (fun _ => ⟨hstay, fun u hu => by cases hu⟩) fun _ => ?_
  refine ends_bind_lift (fun _ _ => ⟨hstay, fun u hu => by cases hu⟩) fun node hnode => ?_
  refine ends_bind_lift (fun _ _ => ⟨hstay, fun u hu => by cases hu⟩) fun inputs hinputs => ?_
  refine ends_bind_lift (fun _ _ => ⟨hstay, fun u hu => by cases hu⟩) fun _ hcheck => ?_
  refine ends_bind_lift (fun _ _ => ⟨hstay, fun u hu => by cases hu⟩) fun permitted _ => ?_
  refine ends_bind_raiseIf (fun _ => ⟨hstay, fun u hu => by cases hu⟩) fun _ => ?_
  have hcalled := h.called hnew hnode hinputs
  refine ends_bind_modify ?_
  refine ends_bind_lift (fun _ _ => ⟨hcalled, fun u hu => by cases hu⟩) fun v hv => ?_
  refine ends_bind_raiseIf (fun _ => ⟨hcalled, fun u hu => by cases hu⟩) fun _ => ?_
  refine ends_bind_raiseIf (fun _ => ⟨hcalled, fun u hu => by cases hu⟩) fun htype => ?_
  have hcomputed : Computed isInstance spec f p.completed id v :=
    ⟨node, inputs, hnode, hinputs, hcheck, hdet node inputs v (invoke_eq_ok hv), by simpa using htype⟩
  have hcompleted := Left.complete (p := p.log (.called id inputs)) hcalled hnew hcomputed
  refine ends_bind_modify (ends_bind_get (ends_bind_lift_ok (make_fingerprint _) ?_))
  refine (ends_publish hcompleted).mono ?_
  rintro r p' ⟨hleft, heq⟩
  exact ⟨hleft, fun _ _ => ⟨v, heq⟩⟩

theorem ends_visit (hdet : env.Deterministic f)
    (h : Left typeName isInstance sha256 spec f past done p) :
    Ends (env.visit typeName isInstance sha256 spec id) p fun r p' =>
      Left typeName isInstance sha256 spec f past (done ++ [id]) p' ∧
        ∀ u, r = .ok u → id ∈ p'.completed ∧ ∀ a, a ∈ p.completed → a ∈ p'.completed := by
  unfold Env.visit
  refine ends_bind_get ?_
  by_cases hid : id ∈ p.completed
  · rw [if_pos (Std.ExtTreeMap.contains_iff_mem.mpr hid)]
    exact ⟨h.mono (List.sublist_append_left done [id]), fun _ _ => ⟨hid, fun _ ha => ha⟩⟩
  · rw [if_neg (by simpa using hid)]
    refine (ends_execute hdet h hid).mono ?_
    rintro r p' ⟨hleft, hinsert⟩
    refine ⟨hleft, fun u hu => ?_⟩
    obtain ⟨v, hv⟩ := hinsert u hu
    rw [hv]
    refine ⟨Table.mem_iff_get.mpr ⟨v, Table.get_insert_self⟩, fun a ha => ?_⟩
    rw [Std.ExtTreeMap.mem_insert]
    exact .inr ha

/-- **What one run does**, resumed from the checkpoint published last. -/
theorem ends_run (hsorted : spec.Sorted order) (hdet : env.Deterministic f) {completed : Table υ}
    (h : Running typeName isInstance sha256 spec f past completed) :
    Ends (env.run typeName isInstance sha256 spec (latest past)) ⟨∅, [], []⟩ fun r p' =>
      (calls p'.trace).Sublist order ∧ ∃ completed',
        Running typeName isInstance sha256 spec f (past ++ p'.trace) completed' ∧
        ∀ result, r = .ok result → result.outputs = completed' ∧ ∀ id ∈ order, id ∈ completed' := by
  have hresumed := h.resumed
  unfold Env.run
  refine ends_bind_lift (fun e _ => ⟨List.nil_sublist _, completed, ?_, fun r hr => ?_⟩) fun _ _ => ?_
  · rwa [List.append_nil]
  · cases hr
  refine ends_bind_lift_ok h.restore (ends_bind_set (ends_bind_lift_ok hsorted.sorted ?_))
  refine ends_bind (Ends.mono (ends_forM_raising
    (I := fun p xs => ∃ done, order = done ++ xs ∧
      Left typeName isInstance sha256 spec f past done p ∧ ∀ id ∈ done, id ∈ p.completed)
    (J := fun p => Left typeName isInstance sha256 spec f past order p) ?_ ?_) ?_)
  · rintro p id xs ⟨done, rfl, hleft, hall⟩
    refine (ends_visit hdet hleft).mono ?_
    rintro r p' ⟨hleft', hok⟩
    refine ⟨fun u hu => ⟨done ++ [id], by simp, hleft', fun a ha => ?_⟩, fun e _ => ?_⟩
    · rcases List.mem_append.mp ha with ha | ha
      · exact (hok u hu).2 a (hall a ha)
      · rw [List.mem_singleton.mp ha]
        exact (hok u hu).1
    · refine hleft'.mono ?_
      exact (List.Sublist.refl done).append (List.singleton_sublist.mpr List.mem_cons_self)
  · refine ⟨[], rfl, ⟨?_, List.Sublist.refl _⟩, fun id hid => absurd hid List.not_mem_nil⟩
    rw [List.append_nil]
    exact hresumed
  · rintro r p' ⟨hok, herror⟩
    refine ⟨fun u hu => ?_, fun e he => ?_⟩
    · obtain ⟨done, hdone, hleft, hall⟩ := hok u hu
      rw [List.append_nil] at hdone
      subst hdone
      refine ends_bind_get (ends_bind_lift_ok (make_fingerprint _) ?_)
      refine ⟨hleft.calls, p'.completed, hleft.running, fun result hresult => ?_⟩
      cases hresult
      exact ⟨rfl, hall⟩
    · have hleft := herror e he
      exact ⟨hleft.calls, p'.completed, hleft.running, fun result hresult => by cases hresult⟩

/-! ## A run that nothing stops -/

/-- **Nothing stops the run**: no cancellation, no denial, no failure. -/
structure Env.Uninterrupted (env : Env τ υ) (f : DagNode τ → Table υ → υ) : Prop where
  runId : identifier env.runId "run_id" = .ok ()
  cancelledBefore : ∀ id, env.cancelledBefore id = false
  policy : ∀ node, env.policy node = .ok true
  handler : ∀ node inputs, env.handler node inputs = .ok (f node inputs)
  cancelledAfter : ∀ id, env.cancelledAfter id = false
  sink : ∀ sink, env.sink = some sink → ∀ c, sink c = .ok ()

theorem Env.Uninterrupted.publish (h : env.Uninterrupted f) (c : DagCheckpoint υ) :
    Ends (env.publish c) p fun r p' => r = .ok () ∧ p'.completed = p.completed := by
  unfold Env.publish
  split
  · exact ⟨rfl, rfl⟩
  · rename_i sink hsink
    exact ends_bind_lift_ok (h.sink sink hsink c) ⟨rfl, rfl⟩

/-- The entries that a full table has for some nodes. -/
def Agrees (full : Table υ) (done : List String) (completed : Table υ) : Prop :=
  ∀ id : String, completed[id]? = if id ∈ done then full[id]? else none

theorem Env.Uninterrupted.visit (h : env.Uninterrupted f) {full : Table υ}
    (hsorted : spec.Sorted order) (hfull : Sound isInstance spec f full)
    (hall : ∀ id ∈ order, id ∈ full) {later : List String} (horder : order = done ++ id :: later)
    (hp : Agrees full done p.completed) :
    Ends (env.visit typeName isInstance sha256 spec id) p fun r p' =>
      r = .ok .unit ∧ Agrees full (done ++ [id]) p'.completed := by
  have hnew : id ∉ done := by
    have hnodup : order.Nodup := hsorted.perm.nodup_iff.mpr hsorted.nodup
    rw [horder, List.nodup_append] at hnodup
    exact fun hid => hnodup.2.2 id hid id List.mem_cons_self rfl
  have habsent : id ∉ p.completed := by
    rw [Table.not_mem_iff_get, hp, if_neg hnew]
  have hmem : id ∈ order := horder ▸ List.mem_append_right _ List.mem_cons_self
  obtain ⟨v, hv⟩ := Table.mem_iff_get.mp (hall id hmem)
  obtain ⟨node, inputs, hnode, hinputs, hcheck, hvalue, htype⟩ := hfull id v hv
  obtain ⟨hnodes, hid⟩ := DagSpec.node_eq_ok hnode
  have hsame : node.inputs p.completed = .ok inputs := by
    rw [← hinputs]
    refine DagNode.inputs_congr fun d hd => ?_
    rw [hp, if_pos (hsorted.topological done id later horder d ⟨node, hnodes, hid, hd⟩)]
  unfold Env.visit
  refine ends_bind_get ?_
  rw [if_neg (by simpa using habsent)]
  unfold Env.execute
  refine ends_bind_lift_ok (a := ()) (raiseIf_eq_ok.mpr (h.cancelledBefore id)) ?_
  refine ends_bind_lift_ok hnode (ends_bind_lift_ok hsame (ends_bind_lift_ok hcheck ?_))
  refine ends_bind_lift_ok (h.policy node) (ends_bind_lift_ok (a := ()) (raiseIf_eq_ok.mpr rfl) ?_)
  refine ends_bind_modify (ends_bind_lift_ok (a := v) ?_ ?_)
  · rw [hvalue]
    simp only [Env.invoke, h.handler]
  refine ends_bind_lift_ok (a := ()) (raiseIf_eq_ok.mpr (h.cancelledAfter id)) ?_
  refine ends_bind_lift_ok (a := ()) (raiseIf_eq_ok.mpr (by simpa using htype)) ?_
  refine ends_bind_modify (ends_bind_get (ends_bind_lift_ok (make_fingerprint _) ?_))
  refine (h.publish _).mono ?_
  rintro r p' ⟨rfl, heq⟩
  refine ⟨rfl, fun a => ?_⟩
  rw [heq]
  show (p.completed.insert id v)[a]? = _
  rw [Table.get_insert]
  by_cases ha : id = a
  · subst ha
    rw [if_pos rfl, if_pos (List.mem_append_right _ (List.mem_singleton.mpr rfl)), hv]
  · rw [if_neg ha, hp a]
    simp only [List.mem_append, List.mem_singleton, Ne.symm ha, or_false]

/-- **An uninterrupted run computes the full sound table.** -/
theorem Env.Uninterrupted.run (h : env.Uninterrupted f) {full : Table υ}
    (hsorted : spec.Sorted order) (hfull : Sound isInstance spec f full)
    (hall : ∀ id ∈ order, id ∈ full) :
    Ends (env.run typeName isInstance sha256 spec none) ⟨∅, [], []⟩ fun r _ =>
      ∃ result, r = .ok result ∧ result.outputs = full := by
  unfold Env.run
  refine ends_bind_lift_ok h.runId ?_
  refine ends_bind_lift_ok (restore_good (f := f) fun c hc => by cases hc) ?_
  refine ends_bind_set (ends_bind_lift_ok hsorted.sorted ?_)
  refine ends_bind (Ends.mono (ends_forM (I := fun p xs => ∃ done, order = done ++ xs ∧
    Agrees full done p.completed) ?_ ?_) ?_)
  · rintro p id xs ⟨done, hdone, hp⟩
    refine (h.visit hsorted hfull hall hdone hp).mono ?_
    rintro r p' ⟨rfl, hp'⟩
    exact ⟨rfl, done ++ [id], by rw [hdone]; simp, hp'⟩
  · refine ⟨[], rfl, fun id => ?_⟩
    rw [if_neg List.not_mem_nil]
    simp [taken]
  · rintro r p' ⟨rfl, done, hdone, hp'⟩
    rw [List.append_nil] at hdone
    subst hdone
    refine ⟨fun _ _ => ?_, fun e he => by cases he⟩
    refine ends_bind_get (ends_bind_lift_ok (make_fingerprint _) ⟨_, rfl, ?_⟩)
    refine Std.ExtTreeMap.ext_getElem? fun id => ?_
    show p'.completed[id]? = full[id]?
    rw [hp']
    split
    · rfl
    · rename_i hnot
      symm
      by_contra hne
      obtain ⟨v, hv⟩ := Option.ne_none_iff_exists'.mp hne
      obtain ⟨node, inputs, hnode, -⟩ := hfull id v hv
      obtain ⟨hnodes, rfl⟩ := DagSpec.node_eq_ok hnode
      exact hnot (hsorted.perm.mem_iff.mpr (List.mem_map_of_mem hnodes))

end Executor

/-! ## All runs -/

section Runs

variable (typeName : τ → String) (isInstance : υ → τ → Bool) (sha256 : Bytes → Vector UInt8 32)
  (spec : DagSpec τ)

/-- Runs of the graph, one after the other, each resumed from the checkpoint published last. -/
def runs (envs : List (Env τ υ)) :
    List (Event (Option (DagCheckpoint υ)) (Env τ υ) (Outcome υ)) :=
  events (resume typeName isInstance sha256 spec) none envs

/-- Everything that happened in some runs. -/
def wholeTrace (es : List (Event (Option (DagCheckpoint υ)) (Env τ υ) (Outcome υ))) :
    List (Happening υ) := es.flatMap fun e => e.result.trace

variable {typeName isInstance sha256 spec} {f : DagNode τ → Table υ → υ} {order : List String}
  {envs : List (Env τ υ)}

/-- What one run of the sequence leaves. -/
structure Ran (typeName : τ → String) (isInstance : υ → τ → Bool)
    (sha256 : Bytes → Vector UInt8 32) (spec : DagSpec τ) (f : DagNode τ → Table υ → υ)
    (past : List (Event (Option (DagCheckpoint υ)) (Env τ υ) (Outcome υ)))
    (last : Option (DagCheckpoint υ)) : Prop where
  last : last = latest (wholeTrace past)
  running : ∃ completed, Running typeName isInstance sha256 spec f (wholeTrace past) completed

theorem ran_step (hsorted : spec.Sorted order)
    (past : List (Event (Option (DagCheckpoint υ)) (Env τ υ) (Outcome υ)))
    (e : Event (Option (DagCheckpoint υ)) (Env τ υ) (Outcome υ)) (hdet : e.op.Deterministic f)
    (h : Ran typeName isInstance sha256 spec f past e.before)
    (hstep : e.Is (resume typeName isInstance sha256 spec)) :
    Ran typeName isInstance sha256 spec f (past ++ [e]) e.after ∧
      (calls e.result.trace).Sublist order ∧
      ∀ result, e.result.result = .ok result → Sound isInstance spec f result.outputs ∧
        ∀ id ∈ order, id ∈ result.outputs := by
  obtain ⟨completed, hrunning⟩ := h.running
  have hrun := ends_run hsorted hdet hrunning
  rw [← h.last] at hrun
  obtain ⟨hcalls, completed', hrunning', hresult⟩ := hrun
  obtain ⟨hreply, hafter⟩ := Prod.mk.inj hstep
  have hwhole : wholeTrace (past ++ [e]) = wholeTrace past ++ e.result.trace := by
    simp [wholeTrace]
  rw [← hreply]
  refine ⟨⟨?_, completed', ?_⟩, hcalls, fun result hok => ?_⟩
  · rw [hwhole, latest_append, ← hafter, ← h.last, ← hreply]
  · rw [hwhole, ← hreply]
    exact hrunning'
  · obtain ⟨houtputs, hall⟩ := hresult result hok
    rw [houtputs]
    exact ⟨hrunning'.sound, hall⟩

theorem runs_ran (hsorted : spec.Sorted order) (hdet : ∀ env ∈ envs, env.Deterministic f)
    (past : List (Event (Option (DagCheckpoint υ)) (Env τ υ) (Outcome υ)))
    (e : Event (Option (DagCheckpoint υ)) (Env τ υ) (Outcome υ))
    (rest : List (Event (Option (DagCheckpoint υ)) (Env τ υ) (Outcome υ)))
    (h : runs typeName isInstance sha256 spec envs = past ++ e :: rest) :
    Ran typeName isInstance sha256 spec f past e.before ∧ e.op.Deterministic f ∧
      e.Is (resume typeName isInstance sha256 spec) ∧
      Ran typeName isInstance sha256 spec f (past ++ [e]) e.after := by
  have hrule := events_rule (C := fun env : Env τ υ => env.Deterministic f) hdet
    (I := Ran typeName isInstance sha256 spec f)
    (fun past e hdet h hstep => (ran_step hsorted past e hdet h hstep).1) []
    ⟨rfl, ∅, running_nil⟩ past e rest h
  exact hrule

theorem runs_running (hsorted : spec.Sorted order) (hdet : ∀ env ∈ envs, env.Deterministic f) :
    ∃ completed, Running typeName isInstance sha256 spec f
      (wholeTrace (runs typeName isInstance sha256 spec envs)) completed := by
  rcases List.eq_nil_or_concat' (runs typeName isInstance sha256 spec envs) with hnil | ⟨past, e, h⟩
  · rw [hnil]
    exact ⟨∅, running_nil⟩
  · rw [h]
    exact (runs_ran hsorted hdet past e [] h).2.2.2.running

/-- **Resumed runs equal an uninterrupted one.** For every graph that was constructed and any runs
with deterministic handlers, each resumed from the checkpoint published last and stopped anywhere:

1. every run accepts the checkpoint it is resumed from;
2. every published checkpoint holds the dependencies of what it holds, and would be accepted;
3. no node is called after a checkpoint that holds it was published;
4. every node is called with exactly the outputs that its dependencies returned before;
5. what a finished run returns, an uninterrupted run returns too;
6. the order is topological, and the calls of every run follow it;
7. the order and the fingerprint do not depend on the order in which the nodes are listed. -/
theorem resumed_equals_uninterrupted (typeName : τ → String) (isInstance : υ → τ → Bool)
    (sha256 : Bytes → Vector UInt8 32) (spec : DagSpec τ) (f : DagNode τ → Table υ → υ)
    (envs : List (Env τ υ)) (hspec : spec.Constructed)
    (hdet : ∀ env ∈ envs, env.Deterministic f) :
    let es := runs typeName isInstance sha256 spec envs
    (∀ e ∈ es, spec.restore typeName isInstance sha256 e.before = .ok (taken e.before)) ∧
    (∀ c, .published c ∈ wholeTrace es → DependencyClosed spec c.completed ∧
      spec.restore typeName isInstance sha256 (some c) = .ok c.completed) ∧
    (wholeTrace es).Pairwise Once ∧
    AllFed spec (wholeTrace es) ∧
    (∀ e ∈ es, ∀ result, e.result.result = .ok result → ∀ env : Env τ υ, env.Uninterrupted f →
      ∃ whole, (Proc.exec (env.run typeName isInstance sha256 spec none) ⟨∅, [], []⟩).1 = .ok whole ∧
        whole.outputs = result.outputs) ∧
    (∃ order, spec.topologicalOrder = .ok order ∧ order.Perm spec.ids ∧
      Topological spec.Depends order ∧ ∀ e ∈ es, (calls e.result.trace).Sublist order) ∧
    ∀ nodes, nodes.Perm spec.nodes →
      { spec with nodes }.topologicalOrder = spec.topologicalOrder ∧
      { spec with nodes }.fingerprint typeName sha256 = spec.fingerprint typeName sha256 := by
  intro es
  obtain ⟨order, hsorted⟩ := hspec.sorted
  have hrunning : ∃ completed, Running typeName isInstance sha256 spec f (wholeTrace es) completed :=
    runs_running hsorted hdet
  obtain ⟨completed, hrunning⟩ := hrunning
  have hran : ∀ e ∈ es, ∃ past, Ran typeName isInstance sha256 spec f past e.before ∧
      e.op.Deterministic f ∧ e.Is (resume typeName isInstance sha256 spec) := by
    intro e he
    obtain ⟨past, rest, h⟩ := List.append_of_mem he
    obtain ⟨hran, hop, hstep, -⟩ := runs_ran hsorted hdet past e rest h
    exact ⟨past, hran, hop, hstep⟩
  refine ⟨fun e he => ?_, fun c hc => ?_, hrunning.once, hrunning.fed, fun e he result hok env henv => ?_,
    ⟨order, hsorted.sorted, hsorted.perm, hsorted.topological, fun e he => ?_⟩, fun nodes hnodes => ?_⟩
  · obtain ⟨past, hran, -⟩ := hran e he
    obtain ⟨_, hrunning⟩ := hran.running
    rw [hran.last]
    exact hrunning.restore
  · have hgood := hrunning.good c hc
    refine ⟨hgood.sound.closed hsorted.nodup, restore_good (f := f) fun d hd => ?_⟩
    cases hd
    exact hgood
  · obtain ⟨past, hran, hop, hstep⟩ := hran e he
    obtain ⟨hsound, hall⟩ := (ran_step hsorted past e hop hran hstep).2.2 result hok
    exact henv.run hsorted hsound hall
  · obtain ⟨past, hran, hop, hstep⟩ := hran e he
    exact (ran_step hsorted past e hop hran hstep).2.1
  · exact ⟨DagSpec.topologicalOrder_perm hnodes, DagSpec.fingerprint_perm _ _ hsorted.nodup hnodes⟩

end Runs

/-! ## A graph of two nodes, stopped between them -/

/-- `b` depends on `a`. -/
def twoNodes : DagSpec Unit where
  graphId := "g"
  version := 1
  nodes := [⟨"b", ["a"], (∅ : Table Unit).insert "a" (), (), "add"⟩, ⟨"a", [], ∅, (), "read"⟩]

/-- The number of inputs plus one. -/
def countInputs (_ : DagNode Unit) (inputs : Table Nat) : Nat := inputs.size + 1

/-- A run that is cancelled when it reaches `stop`. -/
def countRun (stop : String) : Env Unit Nat where
  runId := "r"
  cancelledBefore id := id == stop
  policy _ := .ok true
  handler node inputs := .ok (countInputs node inputs)
  cancelledAfter _ := false
  sink := some fun _ => .ok ()

theorem resumed_equals_uninterrupted_twoNodes :
    ((runs (fun _ => "int") (fun _ _ => true) (fun _ => Vector.replicate 32 0) twoNodes
      [countRun "b", countRun ""]).map fun e => calls e.result.trace) = [["a"], ["b"]] ∧
    (wholeTrace (runs (fun _ => "int") (fun _ _ => true) (fun _ => Vector.replicate 32 0) twoNodes
      [countRun "b", countRun ""])).Pairwise Once := by
  have hspec : twoNodes.Constructed := ⟨by decide +kernel, by decide +kernel⟩
  have hdet : ∀ env ∈ [countRun "b", countRun ""], env.Deterministic countInputs := by
    intro env henv node inputs v hv
    rcases List.mem_pair.mp henv with rfl | rfl
    · exact (Except.ok.inj hv).symm
    · exact (Except.ok.inj hv).symm
  refine ⟨by decide +kernel, ?_⟩
  exact (resumed_equals_uninterrupted (fun _ => "int") (fun _ _ => true)
    (fun _ => Vector.replicate 32 0) twoNodes countInputs _ hspec hdet).2.2.1

end LumaOS.TypedDag
