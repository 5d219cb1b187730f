import LumaOS.BrokerEffects.Sound
import LumaOS.Base.Run

/-!
# Effects, over a run

* `ends_execute`: at every system call of `execute` the disk is sound, and where the call returns the
  effect of its request has succeeded.
* `effects_dispatched_once`: what follows over every run of calls, each cut wherever, with losses of
  power between them.
-/

namespace LumaOS.BrokerEffects

open LumaOS.Base LumaOS.Json

variable {past : List Dispatch} {d : Disk} {j : Journal} {identity : String} {uid : UInt32} {action : Action}

/-! ## One call -/

theorem Sound.seen (h : Sound past d) (hj : Keeps d.dispatched d.succeeded j) : Sound past { d with visible := j } :=
  ⟨h.past, hj, h.durable, h.timely, h.settles, h.nodup, h.succeeded⟩

theorem Sound.synced (h : Sound past d) : Sound past { d with durable := d.visible } :=
  ⟨h.past, h.visible, h.visible, h.timely, h.settles, h.nodup, h.succeeded⟩

theorem Sound.lost (h : Sound past d) : Sound past { d with visible := d.durable } :=
  ⟨h.past, h.durable, h.durable, h.timely, h.settles, h.nodup, h.succeeded⟩

/-- The disk after a publication. -/
def Disk.publishing (d : Disk) (j : Journal) : Disk := { d with visible := j, durable := j }

theorem reads_read : Reads read d fun j => j = d.visible ∧ Valid j := by
  refine reads_call fun _ => ?_
  refine Mut.spec_bind_get (Mut.spec_bind_lift fun _ _ => Mut.spec_bind_lift fun _ hvalid => ?_)
  exact Mut.spec_pure ⟨rfl, rfl, validate_eq_ok.mp hvalid⟩

theorem reads_authorize : Reads authorize d fun _ => True :=
  reads_call fun _ => Mut.spec_pure ⟨rfl, trivial⟩

/-- **A publication**, wherever it is cut. -/
theorem ends_publish (h : Sound past d) (hj : Keeps d.dispatched d.succeeded j) :
    Ends (publish j) d (fun _ d' => d' = d.publishing j) (Sound past) := by
  refine ends_bind_lift h fun _ _ => ends_bind_lift h fun _ _ => ?_
  refine ends_bind (ends_modify h (h.seen hj)) ?_
  rintro _ _ rfl
  exact ends_modify (h.seen hj) (h.seen hj).synced

theorem Sound.publishing (h : Sound past d) (hj : Keeps d.dispatched d.succeeded j) : Sound past (d.publishing j) :=
  (h.seen hj).synced

/-- A completed request of the visible journal is replayed. -/
theorem ends_replay (h : Sound past d) {record : Record} (hmem : record ∈ d.visible.records)
    (hid : record.requestId = identity) :
    Ends (replay record uid action) d (fun _ d' => Sound past d' ∧ (identity, action) ∈ d'.succeeded)
      (Sound past) := by
  refine ends_bind_lift h fun _ hsame => ?_
  rw [refuseIf_eq_ok] at hsame
  simp at hsame
  cases hstate : record.state with
  | completed =>
    refine ends_bind (ends_modify h h.synced) ?_
    rintro _ _ rfl
    refine ends_pure ⟨h.synced, ?_⟩
    have hmem := h.visible.completed record hmem hstate
    rwa [hid, hsame.2] at hmem
  | applying | notApplied => exact ends_lift h fun _ hrefuse => absurd hrefuse refuse_ne_ok

/-- What `dispatch` starts from: a journal without the request, where nothing is applying. -/
structure Fresh (past : List Dispatch) (d : Disk) (identity : String) : Prop where
  sound : Sound past d
  id : requestId identity = true
  unknown : ∀ r ∈ d.visible.records, r.requestId ≠ identity
  settled : ∀ r ∈ d.visible.records, r.state ≠ .applying
  room : d.visible.records.length < maxRecords

namespace Fresh

theorem undispatched (h : Fresh past d identity) : ∀ x ∈ d.dispatched, x.request ≠ identity := by
  intro x hx heq
  obtain ⟨r, hr, hid, -⟩ := h.sound.visible.dispatched x hx
  exact h.unknown r hr (hid.trans heq)

/-- The visible journal with a record of the request. -/
theorem keeps (h : Fresh past d identity) (state : State)
    (hstate : state = .completed → (identity, action) ∈ d.succeeded) :
    Keeps d.dispatched d.succeeded (d.visible.push ⟨identity, 0, action, state⟩) where
  valid := h.sound.visible.valid.push h.room h.id rfl h.unknown h.settled
  dispatched := by
    intro x hx
    obtain ⟨r, hr, hkeeps⟩ := h.sound.visible.dispatched x hx
    exact ⟨r, List.mem_append_left _ hr, hkeeps⟩
  completed := by
    intro r hr hcompleted
    rcases List.mem_append.mp hr with hr | hr
    · exact h.sound.visible.completed r hr hcompleted
    · obtain rfl := List.mem_singleton.mp hr
      exact hstate hcompleted

/-- The disk with the effect dispatched, and succeeded or not. -/
def effected (d : Disk) (identity : String) (action : Action) (succeeded : List (String × Action)) :
    Disk :=
  let j := d.visible.push ⟨identity, 0, action, .applying⟩
  ⟨j, j, d.dispatched ++ [⟨identity, action, j⟩], succeeded⟩

/-- Every effect before was completed, as nothing else was applying. -/
theorem settles (h : Fresh past d identity) : ∀ x ∈ d.dispatched,
    x.Settles ⟨identity, action, d.visible.push ⟨identity, 0, action, .applying⟩⟩ := by
  intro x hx
  obtain ⟨r, hr, hid, haction, happlied⟩ := h.sound.visible.dispatched x hx
  have hcompleted : r.state = .completed := by
    cases hstate : r.state with
    | completed => rfl
    | applying => exact absurd hstate (h.settled r hr)
    | notApplied => exact absurd hstate happlied
  have hrecord : r = ⟨x.request, 0, x.action, .completed⟩ := by
    rw [← hid, ← haction, ← hcompleted, ← (h.sound.visible.valid.root r hr).2]
  exact List.mem_append_left _ (hrecord ▸ hr)

/-- After the dispatch, the journal with the last record applying or completed is kept. -/
theorem keeps_effected (h : Fresh past d identity) {succeeded : List (String × Action)}
    (hsucceeded : d.succeeded ⊆ succeeded) {state : State} (happlied : state ≠ .notApplied)
    (hstate : state = .completed → (identity, action) ∈ succeeded) :
    Keeps (effected d identity action succeeded).dispatched succeeded
      (d.visible.push ⟨identity, 0, action, state⟩) where
  valid := h.sound.visible.valid.push h.room h.id rfl h.unknown h.settled
  dispatched := by
    intro x hx
    rcases List.mem_append.mp hx with hx | hx
    · obtain ⟨r, hr, hkeeps⟩ := h.sound.visible.dispatched x hx
      exact ⟨r, List.mem_append_left _ hr, hkeeps⟩
    · obtain rfl := List.mem_singleton.mp hx
      exact ⟨_, List.mem_append_right _ List.mem_cons_self, rfl, rfl, happlied⟩
  completed := by
    intro r hr hcompleted
    rcases List.mem_append.mp hr with hr | hr
    · exact hsucceeded (h.sound.visible.completed r hr hcompleted)
    · obtain rfl := List.mem_singleton.mp hr
      exact hstate hcompleted

theorem sound_effected (h : Fresh past d identity) {succeeded : List (String × Action)}
    (hsucceeded : succeeded = d.succeeded ∨ succeeded = (identity, action) :: d.succeeded) :
    Sound past (effected d identity action succeeded) := by
  have hsubset : d.succeeded ⊆ succeeded := by
    rcases hsucceeded with rfl | rfl
    · exact List.Subset.refl _
    · exact List.subset_cons_self _ _
  have hkeeps : Keeps (effected d identity action succeeded).dispatched succeeded
      (d.visible.push ⟨identity, 0, action, .applying⟩) :=
    h.keeps_effected hsubset (by simp) (by simp)
  refine ⟨h.sound.past.trans (List.prefix_append _ _), hkeeps, hkeeps, ?_, ?_, ?_, ?_⟩
  · intro x hx
    rcases List.mem_append.mp hx with hx | hx
    · exact h.sound.timely x hx
    · obtain rfl := List.mem_singleton.mp hx
      simpa [Dispatch.Timely, Journal.push] using h.settled
  · refine List.pairwise_append.mpr ⟨h.sound.settles, List.pairwise_singleton _ _, ?_⟩
    intro x hx y hy
    rw [List.mem_singleton.mp hy]
    exact h.settles x hx
  · simp only [effected, List.map_append, List.map_singleton]
    refine List.nodup_append.mpr ⟨h.sound.nodup, List.nodup_singleton _, ?_⟩
    intro a ha b hb
    obtain ⟨x, hx, rfl⟩ := List.mem_map.mp ha
    rw [List.mem_singleton.mp hb]
    exact h.undispatched x hx
  · have hold : ∀ p ∈ d.succeeded, ∃ x ∈ (effected d identity action succeeded).dispatched,
        (x.request, x.action) = p := by
      intro p hp
      obtain ⟨x, hx, heq⟩ := h.sound.succeeded p hp
      exact ⟨x, List.mem_append_left _ hx, heq⟩
    rcases hsucceeded with rfl | rfl
    · exact hold
    · refine List.forall_mem_cons.mpr ⟨?_, hold⟩
      exact ⟨_, List.mem_append_right _ List.mem_cons_self, rfl⟩

end Fresh

/-- An effect may not happen, may fail, or may succeed with its reply lost. -/
theorem ends_effect (h : Sound past d) {x : Dispatch} (hx : x = ⟨identity, action, d.durable⟩)
    (hfailed : Sound past { d with dispatched := d.dispatched ++ [x] })
    (hsucceeded : Sound past { d with
      dispatched := d.dispatched ++ [x]
      succeeded := (identity, action) :: d.succeeded }) :
    Ends (effect identity action) d (fun _ d' => d' = { d with
      dispatched := d.dispatched ++ [x]
      succeeded := (identity, action) :: d.succeeded }) (Sound past) := by
  subst hx
  intro replies
  rcases replies with _ | ⟨succeeds | ⟨succeeds, message⟩ | message, rest⟩
  · exact h
  · cases succeeds with
    | true => rfl
    | false => exact hfailed
  · cases succeeds with
    | true => exact hsucceeded
    | false => exact hfailed
  · exact h

/-- **The dispatch of a new request**, wherever it is cut. -/
theorem ends_dispatch (h : Fresh past d identity) :
    Ends (dispatch d.visible identity 0 action) d
      (fun _ d' => Sound past d' ∧ (identity, action) ∈ d'.succeeded) (Sound past) := by
  have hset : ∀ state, (d.visible.push ⟨identity, 0, action, .applying⟩).setState
      d.visible.records.length state = d.visible.push ⟨identity, 0, action, state⟩ := fun state =>
    setState_push _ _ state
  have happlying : Keeps d.dispatched d.succeeded
      (d.visible.push ⟨identity, 0, action, .applying⟩) := h.keeps .applying (by simp)
  have hpublished := h.sound.publishing happlying
  refine ends_bind_lift h.sound fun _ _ => ends_bind (ends_publish h.sound happlying) ?_
  rintro _ _ rfl
  refine reads_authorize.ends_bind hpublished fun granted _ => ?_
  by_cases hgranted : granted
  · rw [if_pos hgranted]
    have hfailed : Sound past (Fresh.effected d identity action d.succeeded) :=
      h.sound_effected (Or.inl rfl)
    have hsucceeded : Sound past
        (Fresh.effected d identity action ((identity, action) :: d.succeeded)) :=
      h.sound_effected (Or.inr rfl)
    have hcompleted : Keeps (Fresh.effected d identity action d.succeeded).dispatched
        ((identity, action) :: d.succeeded) (d.visible.push ⟨identity, 0, action, .completed⟩) :=
      h.keeps_effected (List.subset_cons_self _ _) (by simp) fun _ => List.mem_cons_self
    refine ends_bind (ends_effect hpublished rfl hfailed hsucceeded) ?_
    rintro _ _ rfl
    refine ends_bind (ends_publish hsucceeded (hset .completed ▸ hcompleted)) ?_
    rintro _ _ rfl
    exact ends_pure ⟨hsucceeded.publishing (hset .completed ▸ hcompleted), List.mem_cons_self⟩
  · rw [if_neg hgranted]
    have hdenied : Keeps d.dispatched d.succeeded
        (d.visible.push ⟨identity, 0, action, .notApplied⟩) := h.keeps .notApplied (by simp)
    refine ends_bind (ends_publish hpublished (hset .notApplied ▸ hdenied)) ?_
    rintro _ _ rfl
    exact ends_lift (hpublished.publishing (hset .notApplied ▸ hdenied)) fun _ hrefuse =>
      absurd hrefuse refuse_ne_ok

/-- **`execute`, wherever it is cut**: the disk is sound, and a request that returns has had its
effect. -/
theorem ends_execute (h : Sound past d) :
    Ends (execute identity uid action) d
      (fun _ d' => Sound past d' ∧ (identity, action) ∈ d'.succeeded) (Sound past) := by
  refine ends_bind_lift h fun _ hidentity => ?_
  rw [refuseIf_eq_ok] at hidentity
  simp at hidentity
  obtain ⟨hid, rfl⟩ := hidentity
  refine reads_read.ends_bind h fun journal hjournal => ?_
  obtain ⟨rfl, -⟩ := hjournal
  refine reads_authorize.ends_bind h fun granted _ => ends_bind_lift h fun _ _ => ?_
  refine ends_bind_lift h fun _ hsettled => ?_
  rw [refuseIf_eq_ok] at hsettled
  simp at hsettled
  cases hfind : d.visible.records.find? fun r => r.requestId == identity with
  | some record =>
    have hrequest := List.find?_some hfind
    exact ends_replay h (List.mem_of_find?_eq_some hfind) (by simpa using hrequest)
  | none =>
    rw [List.find?_eq_none] at hfind
    dsimp only
    by_cases hroom : d.visible.records.length < maxRecords
    · exact ends_dispatch ⟨h, hid, by simpa using hfind, hsettled, hroom⟩
    · refine ends_bind_lift h fun _ hcapacity => ?_
      rw [refuseIf_eq_ok] at hcapacity
      simp at hcapacity
      omega

/-! ## Runs -/

/-- An effect was dispatched whose completion no journal records. -/
def Unrecorded (d : Disk) : Prop :=
  ∃ x ∈ d.dispatched, ∀ j ∈ [d.visible, d.durable],
    ⟨x.request, 0, x.action, .completed⟩ ∉ j.records

/-- Nothing is dispatched any more: both journals have a request that is applying. -/
def Stuck (d : Disk) : Prop :=
  ∀ j ∈ [d.visible, d.durable], ∃ r ∈ j.records, r.state = .applying

theorem Sound.stuck (h : Sound past d) (hd : Unrecorded d) : Stuck d := by
  obtain ⟨x, hx, hopen⟩ := hd
  have happlying : ∀ j, Keeps d.dispatched d.succeeded j →
      ⟨x.request, 0, x.action, .completed⟩ ∉ j.records → ∃ r ∈ j.records, r.state = .applying := by
    intro j hj hnot
    obtain ⟨r, hr, hid, haction, happlied⟩ := hj.dispatched x hx
    refine ⟨r, hr, ?_⟩
    cases hstate : r.state with
    | applying => rfl
    | notApplied => exact absurd hstate happlied
    | completed =>
      refine absurd ?_ hnot
      rwa [← hid, ← haction, ← hstate, ← (hj.valid.root r hr).2]
  intro j hj
  rcases List.mem_pair.mp hj with rfl | rfl
  · exact happlying _ h.visible (hopen _ (by simp))
  · exact happlying _ h.durable (hopen _ (by simp))

/-- While a request is applying, `execute` leaves the disk as it is. -/
theorem ends_execute_of_applying (h : ∃ r ∈ d.visible.records, r.state = .applying) :
    Reads (execute identity uid action) d fun _ => False := by
  refine reads_bind_lift fun _ _ => reads_read.bind fun journal hjournal => ?_
  obtain ⟨rfl, -⟩ := hjournal
  refine reads_authorize.bind fun _ _ => reads_bind_lift fun _ _ => reads_bind_lift fun _ hnone => ?_
  obtain ⟨r, hr, hstate⟩ := h
  rw [refuseIf_eq_ok, List.any_eq_false] at hnone
  exact absurd hstate (by simpa using hnone r hr)

theorem step_stuck (h : Stuck d) (op : Op) :
    Stuck (step d op).2 ∧ (step d op).2.dispatched = d.dispatched := by
  have hvisible := h _ (List.mem_cons_self)
  have hdurable := h d.durable (by simp)
  cases op with
  | execute identity uid action replies =>
    have hsame : (step d (.execute identity uid action replies)).2 = d :=
      (ends_execute_of_applying hvisible).leaves (fun _ _ ha => ha.1) replies
    rw [hsame]
    exact ⟨h, rfl⟩
  | powerLoss => exact ⟨fun j hj => by simpa [step] using (by simpa [step] using hj) ▸ hdurable, rfl⟩
  | writeBack => exact ⟨fun j hj => by simpa [step] using (by simpa [step] using hj) ▸ hvisible, rfl⟩

/-- **What one step keeps.** -/
theorem step_sound (h : Sound past d) (op : Op) : Sound d.dispatched (step d op).2 ∧
    ∀ identity uid action replies replayed, op = .execute identity uid action replies →
      (step d op).1 = some (.ok replayed) → (identity, action) ∈ (step d op).2.succeeded := by
  have hd : Sound d.dispatched d :=
    ⟨List.prefix_refl _, h.visible, h.durable, h.timely, h.settles, h.nodup, h.succeeded⟩
  cases op with
  | execute identity uid action replies =>
    have hends : Ends (execute identity uid action) d
        (fun _ d' => Sound d.dispatched d' ∧ (identity, action) ∈ d'.succeeded)
        (Sound d.dispatched) := ends_execute hd
    refine ⟨hends.leaves (fun _ _ ha => ha.1) replies, ?_⟩
    intro identity' uid' action' replies' replayed hop hresult
    cases hop
    rcases he : Mut.exec (execute identity uid action) ⟨d, replies⟩ with ⟨result, left⟩
    simp only [step, he] at hresult ⊢
    rw [Option.some.inj hresult] at he
    exact (hends.of_ok he).2
  | powerLoss => exact ⟨hd.lost, by simp⟩
  | writeBack => exact ⟨hd.synced, by simp⟩

/-- **Every effect is dispatched at most once, and never past an uncertain outcome.** -/
theorem effects_dispatched_once (ops : List Op) :
    (∀ e ∈ events step Disk.initialized ops,
      e.before.dispatched <+: e.after.dispatched ∧
      (e.after.dispatched.map Dispatch.request).Nodup ∧
      (∀ x ∈ e.after.dispatched, x.Timely) ∧
      e.after.dispatched.Pairwise Dispatch.Settles ∧
      (∀ p ∈ e.after.succeeded, ∃ x ∈ e.after.dispatched, (x.request, x.action) = p) ∧
      validate e.after.visible = .ok () ∧ validate e.after.durable = .ok () ∧
      ∀ identity uid action replies replayed, e.op = .execute identity uid action replies →
        e.result = some (.ok replayed) → (identity, action) ∈ e.after.succeeded) ∧
    ∀ past e rest, events step Disk.initialized ops = past ++ e :: rest → Unrecorded e.after →
      ∀ f ∈ rest, f.after.dispatched = e.after.dispatched := by
  have hevery : ∀ e ∈ events step Disk.initialized ops, (∃ past, Sound past e.before) ∧ True ∧
      e.Is step ∧ ∃ past, Sound past e.after := by
    refine events_invariant (I := fun d => ∃ past, Sound past d) (anyRequest ops) ?_
      ⟨_, sound_initialized⟩
    rintro ⟨before, op, result, after⟩ - ⟨past, hsound⟩ his
    have hafter := (step_sound hsound op).1
    rw [Event.Is] at his
    rw [his] at hafter
    exact ⟨_, hafter⟩
  constructor
  · intro e he
    obtain ⟨⟨past, hsound⟩, -, his, -⟩ := hevery e he
    obtain ⟨hafter, hreturns⟩ := step_sound hsound e.op
    rw [Event.Is] at his
    rw [his] at hafter hreturns
    exact ⟨hafter.past, hafter.nodup, hafter.timely, hafter.settles, hafter.succeeded,
      validate_eq_ok.mpr hafter.visible.valid, validate_eq_ok.mpr hafter.durable.valid, hreturns⟩
  · intro past e rest hrun hopen f hf
    have hmem : e ∈ events step Disk.initialized ops := by
      rw [hrun]
      simp
    obtain ⟨-, -, -, since, hafter⟩ := hevery e hmem
    have hchain : (Disk.initialized :: (events step Disk.initialized ops).map Event.after).Pairwise
        fun d d' => Stuck d → Stuck d' ∧ d'.dispatched = d.dispatched := by
      refine events_chain (I := fun _ => True) (anyRequest ops) ?_ ?_ trivial
      · intro a b c hab hbc ha
        obtain ⟨hb, heq⟩ := hab ha
        exact ⟨(hbc hb).1, (hbc hb).2.trans heq⟩
      · rintro ⟨before, op, result, after⟩ - - his
        refine ⟨fun hstuck => ?_, trivial⟩
        have hnext := step_stuck hstuck op
        rw [Event.Is] at his
        rwa [his] at hnext
    rw [hrun, List.map_append, List.map_cons] at hchain
    have hlater := (List.pairwise_append.mp (List.pairwise_cons.mp hchain).2).2.1
    exact ((List.pairwise_cons.mp hlater).1 _ (List.mem_map_of_mem hf) (hafter.stuck hopen)).2

end LumaOS.BrokerEffects
