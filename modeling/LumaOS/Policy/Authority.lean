import LumaOS.Base.Trace
import LumaOS.Policy.Store

/-!
# The evidence graph licenses only authorized effects

What holds of the records of a store that starts empty, over every run of appends and batches of
decisions, of any operations in any order, failed calls and calls that fail after the file is in
place included.

* `Linked.covers`: an effect refers to one allowance for each scope its operation declared, and to
  nothing else. The link check never looks for a scope that no decision covers; it follows by
  counting, since the decisions are as many as the scopes, are on different grants and each matches
  some scope.
* `admit_yields`: what one accepted record changes. A record added to a completed operation is no
  denial, no effect and no uncertain outcome: an effect would need an outcome on file that names it,
  and every outcome on file names an effect on file.
* `evidence_licensed`: the two, over whole runs.
-/

namespace LumaOS.Policy

open LumaOS.Base LumaOS.Text LumaOS.Json LumaOS.Governance

variable {ε : Type} {O : Outside ε} {records : Table (Record ε)} {operation : String}

/-! ## Scopes and decisions -/

/-- The name is that of a decision that allows the scope: its grant, with exactly its usage. -/
def Allows (V : View ε) (scope : String × Use) (name : String) : Prop :=
  ∃ r d, V name r ∧ r.payload = .decision d ∧ d.outcome = .allow ∧
    (d.grantId, d.evaluatedConstraints) = scope

/-- The names are one allowance for each scope, and nothing else. -/
structure Covers (V : View ε) (scopes : List (String × Use)) (names : List String) : Prop where
  nodup : names.Nodup
  each : ∀ scope ∈ scopes, ∃! name, name ∈ names ∧ Allows V scope name
  only : ∀ name ∈ names, ∃ scope ∈ scopes, Allows V scope name

theorem ofOperation_unique {name : String} {r r' : Record ε}
    (h : ofOperation records operation name r) (h' : ofOperation records operation name r') :
    r = r' := Option.some.inj (h.1.symm.trans h'.1)

/-- **The effect's decisions cover the declared scopes.** -/
theorem Linked.covers (h : Linked O operation (ofOperation records operation))
    {k k' effectId : String} {r r' : Record ε} {kind : EffectKind} {names : List String}
    {scopes : List (String × Use)} (hr : ofOperation records operation k r)
    (he : r.payload = .effectStarted effectId kind names)
    (hr' : ofOperation records operation k' r') (hs : r'.payload = .operationStarted scopes) :
    Covers (ofOperation records operation) scopes names := by
  obtain ⟨hlength, decisions, hrefers, hgrants⟩ := h.effect hr he hr' hs
  have hfun : ∀ (name : String) (d d' : Decision),
      (∃ x, ofOperation records operation name x ∧ x.payload = .decision d ∧ d.outcome = .allow) →
      (∃ x, ofOperation records operation name x ∧ x.payload = .decision d' ∧
        d'.outcome = .allow) → d = d' := by
    rintro name d d' ⟨x, hx, hd, -⟩ ⟨x', hx', hd', -⟩
    rw [ofOperation_unique hx hx', hd'] at hd
    exact (Payload.decision.inj hd).symm
  have hscope : ∀ name x d, ofOperation records operation name x → x.payload = .decision d →
      (d.grantId, d.evaluatedConstraints) ∈ scopes :=
    fun name x d hx hd => (h.decision hx hd hr' hs).1
  -- as many decisions as scopes, on different grants, each on a scope: each scope has its decision
  have hperm : (decisions.map fun d => (d.grantId, d.evaluatedConstraints)).Perm scopes := by
    refine (List.subperm_of_subset ?_ fun scope hmem => ?_).perm_of_length_le ?_
    · refine List.Nodup.of_map Prod.fst ?_
      rw [List.map_map]
      exact hgrants
    · obtain ⟨d, hd, rfl⟩ := List.mem_map.mp hmem
      obtain ⟨name, -, x, hx, hxd, -⟩ := exists_mem_of_forall₂ hrefers d hd
      exact hscope name x d hx hxd
    · rw [List.length_map, ← hrefers.length_eq, hlength]
  refine ⟨?_, fun scope hmem => ?_, fun name hmem => ?_⟩
  · exact nodup_of_forall₂ hrefers hgrants fun name d d' hd hd' => by rw [hfun name d d' hd hd']
  · obtain ⟨d, hd, rfl⟩ := List.mem_map.mp (hperm.mem_iff.mpr hmem)
    obtain ⟨name, hname, x, hx, hxd, hallow⟩ := exists_mem_of_forall₂ hrefers d hd
    refine ⟨name, ⟨hname, x, d, hx, hxd, hallow, rfl⟩, ?_⟩
    rintro other ⟨hother, y, e, hy, hye, heallow, hesame⟩
    refine eq_of_forall₂ hrefers hgrants hother hname fun e' d' he' hd' => ?_
    rw [hfun other e' e he' ⟨y, hy, hye, heallow⟩, hfun name d' d hd' ⟨x, hx, hxd, hallow⟩]
    exact congrArg Prod.fst hesame
  · obtain ⟨d, -, x, hx, hxd, hallow⟩ := exists_mem_of_forall₂
      (r := flip fun name d => ∃ x, ofOperation records operation name x ∧
        x.payload = .decision d ∧ d.outcome = .allow) hrefers.flip name hmem
    exact ⟨_, hscope name x d hx hxd, x, d, hx, hxd, hallow, rfl⟩

/-! ## Licensed records -/

/-- What the records of all operations establish about their effects. -/
structure Licensed (O : Outside ε) (records : Table (Record ε)) : Prop where
  /-- One start for each operation on record. -/
  started : ∀ {k : String} {r : Record ε}, records[k]? = some r → ∃! start, ∃ r' scopes,
    ofOperation records r.operationId start r' ∧ r'.payload = .operationStarted scopes
  /-- At most one end. -/
  ended : ∀ {operation k r outcome k' r' outcome'}, ofOperation records operation k r →
    r.payload = .operationFinished outcome → ofOperation records operation k' r' →
    r'.payload = .operationFinished outcome' → k = k'
  /-- Every effect has an allowance for each declared scope, of its own operation. -/
  covered : ∀ {k : String} {r : Record ε} {effectId kind names start r' scopes},
    records[k]? = some r →
    r.payload = .effectStarted effectId kind names →
    ofOperation records r.operationId start r' → r'.payload = .operationStarted scopes →
      Covers (ofOperation records r.operationId) scopes names
  /-- At most one outcome for an effect, in any operation. -/
  settled : ∀ {k k' : String} {r r' : Record ε} {beginId sha256 receipt outcome evidence sha256'
      receipt' outcome' evidence'}, records[k]? = some r →
    r.payload = .effectFinished beginId sha256 receipt outcome evidence →
    records[k']? = some r' →
    r'.payload = .effectFinished beginId sha256' receipt' outcome' evidence' → k = k'
  /-- The outcome is of an effect of its own operation and carries its digest. -/
  bound : ∀ {k : String} {r : Record ε} {beginId sha256 receipt outcome evidence},
    records[k]? = some r →
    r.payload = .effectFinished beginId sha256 receipt outcome evidence →
      ∃ begin effectId kind names, ofOperation records r.operationId beginId begin ∧
        begin.payload = .effectStarted effectId kind names ∧ sha256 = O.digest (begin.toJson O)

theorem licensed_of_linked
    (h : ∀ operation, Linked O operation (ofOperation records operation)) :
    Licensed O records where
  started := by
    intro k r hr
    obtain ⟨k', r', scopes, hr', hs⟩ := (h r.operationId).started ⟨hr, rfl⟩
    refine ⟨k', ⟨r', scopes, hr', hs⟩, ?_⟩
    rintro k'' ⟨r'', scopes'', hr'', hs''⟩
    exact (h r.operationId).start_unique hr'' hs'' hr' hs
  ended hr ho hr' ho' := (h _).ended_unique hr ho hr' ho'
  covered hr he hr' hs := (h _).covers ⟨hr, rfl⟩ he hr' hs
  settled := by
    intro k k' r r' beginId _ _ _ _ _ _ _ _ hr hd hr' hd'
    by_contra hne
    exact (endsApart_of_linked h hr hr' hne).1 beginId (beginId?_eq_some.mpr ⟨_, _, _, _, hd⟩)
      (beginId?_eq_some.mpr ⟨_, _, _, _, hd'⟩)
  bound hr hd := by
    obtain ⟨begin, effectId, kind, names, hbegin, hpayload, hsha, -⟩ := (h _).finished ⟨hr, rfl⟩ hd
    exact ⟨begin, effectId, kind, names, hbegin, hpayload, hsha.symm⟩

/-! ## Completed operations -/

/-- The operation was ended as completed. -/
def Completed (records : Table (Record ε)) (operation : String) : Prop :=
  ∃ k r, ofOperation records operation k r ∧ r.payload = .operationFinished .completed

/-- The record is no denial, no effect and no uncertain outcome of one. -/
structure Record.Harmless (r : Record ε) : Prop where
  allowed : ∀ d, r.payload = .decision d → d.outcome ≠ .deny
  inert : ∀ effectId kind names, r.payload ≠ .effectStarted effectId kind names
  certain : ∀ beginId sha256 receipt outcome evidence,
    r.payload = .effectFinished beginId sha256 receipt outcome evidence → outcome ≠ .uncertain

/-- Records stay as they are, and what is added to a completed operation is harmless. -/
structure Grows (s s' : Store ε) : Prop where
  kept : ∀ {k : String} {r : Record ε}, s.root[k]? = some r → s'.root[k]? = some r
  closed : ∀ {k : String} {r : Record ε}, s'.root[k]? = some r → s.root[k]? = none →
    Completed s.root r.operationId → r.Harmless

theorem Grows.refl (s : Store ε) : Grows s s :=
  ⟨fun h => h, fun h h' _ => absurd (h.symm.trans h') (by simp)⟩

theorem Completed.mono {records' : Table (Record ε)} (h : Completed records operation)
    (hkept : ∀ {k : String} {r : Record ε}, records[k]? = some r → records'[k]? = some r) :
    Completed records' operation := by
  obtain ⟨k, r, ⟨hk, hop⟩, hd⟩ := h
  exact ⟨k, r, ⟨hkept hk, hop⟩, hd⟩

theorem Grows.trans {s s' s'' : Store ε} (h : Grows s s') (h' : Grows s' s'') : Grows s s'' where
  kept hr := h'.kept (h.kept hr)
  closed := by
    intro k r hr hnew hdone
    cases hmid : s'.root[k]? with
    | none => exact h'.closed hr hmid (hdone.mono h.kept)
    | some x =>
      have hsame := h'.kept hmid
      rw [hr] at hsame
      cases hsame
      exact h.closed hmid hnew hdone

/-- The record that a fresh name adds to a completed operation is harmless. -/
theorem harmless_of_linked {record : Record ε}
    (hold : Linked O record.operationId (ofOperation records record.operationId))
    (hnew : Linked O record.operationId
      (ofOperation (records.insert record.recordId record) record.operationId))
    (hfresh : records[record.recordId]? = none) (hdone : Completed records record.operationId) :
    record.Harmless := by
  have hkept : ∀ {k : String} {r : Record ε}, records[k]? = some r →
      (records.insert record.recordId record)[k]? = some r := fun {k r} hr => by
    rw [Table.get_insert_ne fun he => by rw [he, hr] at hfresh; cases hfresh]
    exact hr
  have hrecord : ofOperation (records.insert record.recordId record) record.operationId
      record.recordId record := ⟨Table.get_insert_self, rfl⟩
  obtain ⟨k, r, hr, hd⟩ := hdone.mono hkept
  refine ⟨fun d hpayload hdeny => ?_, fun effectId kind names hpayload => ?_, ?_⟩
  · have hallowed := hnew.allowed hr hd hrecord
    rw [Record.denies, hpayload] at hallowed
    simp [hdeny] at hallowed
  · obtain ⟨k', x, _, _, _, _, ⟨hx, hop⟩, hpx⟩ := hnew.settled hr hd hrecord hpayload
    rw [Table.get_insert] at hx
    split at hx
    · cases hx
      rw [hpayload] at hpx
      cases hpx
    · -- the outcome was on file before the effect it names
      obtain ⟨begin, _, _, _, hbegin, -⟩ := hold.finished ⟨hx, hop⟩ hpx
      rw [hbegin.1] at hfresh
      cases hfresh
  · intro beginId sha256 receipt outcome evidence hpayload
    exact hnew.certain hr hd hrecord hpayload

/-! ## The calls -/

/-- A store that holds no archive and whose records pass the link check under their ids. -/
structure Store.Sound (O : Outside ε) (s : Store ε) : Prop where
  archives : s.archives = ∅
  keyed : Keyed s.root
  links : validateRecordLinks O s.root = .ok ()

theorem Store.Sound.linked {s : Store ε} (h : s.Sound O) (operation : String) :
    Linked O operation (ofOperation s.root operation) :=
  (validateRecordLinks_iff h.keyed).mp h.links operation

/-- A store without records. -/
def Store.empty (installation : String) : Store ε := ⟨installation, ∅, ∅⟩

theorem sound_empty (installation : String) : (Store.empty (ε := ε) installation).Sound O :=
  ⟨rfl, fun name r h => by simp [Store.empty] at h, rfl⟩

variable {M : Storage} {s : Store ε}

theorem memberCounts_eq_ok {recordId : String} : ∀ {files : List (String × Record ε)}
    {acc acc' : Nat × Nat}, files.foldlM (memberCount O recordId) acc = .ok acc' →
      ∀ e ∈ files, e.1 ≠ recordId
  | [], _, _, _ => fun e he => absurd he List.not_mem_nil
  | file :: files, acc, acc', h => by
    rw [List.foldlM_cons, bind_eq_ok] at h
    obtain ⟨mid, hmid, hrest⟩ := h
    simp only [memberCount, bind_eq_ok, refuseIf_eq_ok, beq_eq_false_iff_ne, ne_eq] at hmid
    obtain ⟨_, -, _, hne, -⟩ := hmid
    exact List.forall_mem_cons.mpr ⟨hne, memberCounts_eq_ok hrest⟩

theorem checkCapacity_fresh {root : Table (Record ε)} {record : Record ε} {u : Unit}
    (h : checkCapacity O M root record records = .ok u) : root[record.recordId]? = none := by
  simp only [checkCapacity, bind_eq_ok, refuseIf_eq_ok] at h
  obtain ⟨_, -, _, -, _, hcount, -⟩ := h
  cases hget : root[record.recordId]? with
  | none => rfl
  | some r =>
    have hmem : (record.recordId, r) ∈ root.toList := Table.mem_toList_iff_get.mpr hget
    exact absurd rfl (memberCounts_eq_ok hcount _ hmem)

/-- **The write**: one record more under a name not in use, or nothing. -/
theorem write_yields {record : Record ε} : (Store.write O M record records).Yields s fun r s' =>
    (s' = s ∧ ∃ e, r = .error e) ∨
      (s' = { s with root := s.root.insert record.recordId record } ∧
        s.root[record.recordId]? = none) := by
  refine Mut.yields_bind_get (Mut.yields_bind_lift (fun e _ => Or.inl ⟨rfl, e, rfl⟩)
    fun _ hcapacity => Mut.yields_bind_lift (fun e _ => Or.inl ⟨rfl, e, rfl⟩) fun _ _ => ?_)
  exact Mut.yields_bind_set (Mut.yields_lift (Or.inr ⟨rfl, checkCapacity_fresh hcapacity⟩))

/-- What one call leaves. -/
structure After (O : Outside ε) (s s' : Store ε) : Prop where
  grows : Grows s s'
  sound : s'.Sound O

/-- **One accepted record.** -/
theorem admit_yields (hs : s.Sound O) {record : Record ε} :
    (Store.admitRecord O M s.root record).Yields s fun r s' =>
      After O s s' ∧ ∀ t, r = .ok t → t = s'.root := by
  have hfailed : ∀ e : Stop, After O s s ∧ ∀ t, (.error e : Result (Table (Record ε))) = .ok t →
      t = s.root := fun e => ⟨⟨Grows.refl s, hs⟩, fun t ht => by cases ht⟩
  refine Mut.yields_bind_lift (fun e _ => hfailed e) fun _ _ =>
    Mut.yields_bind_lift (fun e _ => hfailed e) fun _ hlinks => Mut.yields_bind ?_
  refine write_yields.mono ?_
  rintro r s' (⟨rfl, e, rfl⟩ | ⟨rfl, hfresh⟩)
  · exact hfailed e
  · have hkeyed : Keyed (s.root.insert record.recordId record) := fun name x hx => by
      rw [Table.get_insert] at hx
      split at hx
      · rename_i he
        cases hx
        exact he
      · exact hs.keyed name x hx
    have hafter : After O s { s with root := s.root.insert record.recordId record } := by
      refine ⟨⟨fun {k r} hr => ?_, fun {k r} hr hnew hdone => ?_⟩, hs.archives, hkeyed, hlinks⟩
      · dsimp only
        rw [Table.get_insert_ne fun he => by rw [he, hr] at hfresh; cases hfresh]
        exact hr
      · dsimp only at hr
        rw [Table.get_insert] at hr
        split at hr
        · cases hr
          exact harmless_of_linked (hs.linked _) ((validateRecordLinks_iff hkeyed).mp hlinks _)
            hfresh hdone
        · rw [hr] at hnew
          cases hnew
    cases r with
    | error e => exact ⟨hafter, fun t ht => by cases ht⟩
    | ok u => exact ⟨hafter, fun t ht => (Except.ok.inj ht).symm⟩

theorem decisionSteps_yields {installation : String} : ∀ {batch : List (Decision × Storage)}
    {s : Store ε} {acc : Table (Record ε) × List String}, s.Sound O → acc.1 = s.root →
    (batch.foldlM (Store.decisionStep O installation operation) acc).Yields s
      fun _ s' => After O s s'
  | [], s, _, hs, _ => ⟨Grows.refl s, hs⟩
  | next :: batch, s, (records, ids), hs, hacc => by
    obtain rfl : records = s.root := hacc
    rw [List.foldlM_cons]
    refine Mut.yields_bind (Mut.yields_bind ?_)
    refine (admit_yields hs).mono fun r s' h => ?_
    cases r with
    | error e => exact h.1
    | ok t =>
      refine Mut.yields_pure ?_
      refine (decisionSteps_yields h.1.sound (h.2 t rfl)).mono fun _ s'' hrest => ?_
      exact ⟨h.1.grows.trans hrest.grows, hrest.sound⟩

/-! ## The inventory -/

/-- What the first loop of the inventory says of one record file. -/
structure Filed (O : Outside ε) (installation name : String) (r : Record ε) : Prop where
  isId : isId name = true
  valid : r.validate O = .ok ()
  recordId : r.recordId = name
  installation : r.installation = installation

theorem recordSteps_eq_ok {installation : String} : ∀ {files : List (String × Record ε)}
    {acc acc' : Nat × Table (Record ε)}, files.foldlM (recordStep O installation) acc = .ok acc' →
      acc'.2 = files.foldl (fun t e => t.insert e.1 e.2) acc.2 ∧
        ∀ e ∈ files, Filed O installation e.1 e.2
  | [], acc, acc', h => by
    rw [List.foldlM_nil, pure_eq_ok] at h
    subst h
    exact ⟨rfl, fun e he => absurd he List.not_mem_nil⟩
  | file :: files, acc, acc', h => by
    rw [List.foldlM_cons, bind_eq_ok] at h
    obtain ⟨mid, hmid, hrest⟩ := h
    obtain ⟨hfold, hfiled⟩ := recordSteps_eq_ok hrest
    simp only [recordStep, bind_eq_ok, refuseIf_eq_ok, pure_eq_ok, Bool.not_eq_false',
      Bool.or_eq_false_iff, bne_eq_false_iff_eq] at hmid
    obtain ⟨_, hid, _, _, _, hvalid, _, ⟨hrecord, hinst⟩, _, _, rfl⟩ := hmid
    exact ⟨hfold, List.forall_mem_cons.mpr ⟨⟨hid, hvalid, hrecord, hinst⟩, hfiled⟩⟩

variable [DecidableEq ε] {fromSlice : Bytes → Result (Archive ε)}

/-- **What a passed inventory says.** -/
theorem inventory_eq_ok (h : s.inventory O fromSlice M = .ok records) :
    (∀ (k : String) (r : Record ε), s.root[k]? = some r → Filed O s.installation k r) ∧ s.root.size ≤ maxRecords ∧
      (∃ operations, archiveInventory O fromSlice s.installation M.cached s.archives s.root =
        .ok (operations, records)) ∧ validateRecordLinks O records = .ok () := by
  simp only [Store.inventory, bind_eq_ok, refuseIf_eq_ok, pure_eq_ok, decide_eq_false_iff_not,
    Nat.not_lt] at h
  obtain ⟨_, hsize, ⟨n, found⟩, hfound, _, _, ⟨operations, active⟩, hactive, _, hlinks, rfl⟩ := h
  obtain ⟨hfold, hfiled⟩ := recordSteps_eq_ok hfound
  rw [Table.insertAll_toList] at hfold
  obtain rfl : found = s.root := hfold
  exact ⟨fun k r hr => hfiled (k, r) (Table.mem_toList_iff_get.mpr hr), hsize,
    ⟨operations, hactive⟩, hlinks⟩

theorem archiveInventory_empty {installation : String} {cached : String → Bool} :
    archiveInventory O fromSlice installation cached ∅ records = .ok (∅, records) := rfl

theorem inventory_sound (hs : s.Sound O) (h : s.inventory O fromSlice M = .ok records) :
    records = s.root := by
  obtain ⟨-, -, ⟨operations, hactive⟩, -⟩ := inventory_eq_ok h
  rw [hs.archives, archiveInventory_empty] at hactive
  exact (Prod.ext_iff.mp (Except.ok.inj hactive)).2.symm

theorem append_yields (hs : s.Sound O) {recordId : Result String} {payload : Payload ε} :
    (Store.append O fromSlice M recordId operation payload).Yields s fun _ s' => After O s s' := by
  have hsame : After O s s := ⟨Grows.refl s, hs⟩
  refine Mut.yields_bind_lift (fun _ _ => hsame) fun _ _ => Mut.yields_bind_get
    (Mut.yields_bind_lift (fun _ _ => hsame) fun records hrecords =>
      Mut.yields_bind_lift (fun _ _ => hsame) fun recordId _ => Mut.yields_bind ?_)
  rw [inventory_sound hs hrecords]
  refine (admit_yields hs).mono fun r s' h => ?_
  cases r with
  | error e => exact h.1
  | ok t => exact h.1

theorem decisions_yields (hs : s.Sound O) {batch : List (Decision × Storage)} :
    (Store.decisions O fromSlice M operation batch).Yields s fun _ s' => After O s s' := by
  have hsame : After O s s := ⟨Grows.refl s, hs⟩
  refine Mut.yields_bind_lift (fun _ _ => hsame) fun _ _ => Mut.yields_bind_get
    (Mut.yields_bind_lift (fun _ _ => hsame) fun records hrecords => Mut.yields_bind ?_)
  refine (decisionSteps_yields hs (inventory_sound hs hrecords)).mono fun r s' h => ?_
  cases r with
  | error e => exact h
  | ok done => exact h

/-! ## Runs -/

/-- A call that may add records. -/
inductive Call (ε : Type) where
  | append (storage : Storage) (recordId : Result String) (operation : String) (payload : Payload ε)
  | decisions (storage : Storage) (operation : String) (batch : List (Decision × Storage))

/-- Make a call. -/
def call (O : Outside ε) (fromSlice : Bytes → Result (Archive ε)) : Call ε → Mut (Store ε) Unit
  | .append M recordId operation payload => do
    let _ ← Store.append O fromSlice M recordId operation payload
    pure ()
  | .decisions M operation batch => do
    let _ ← Store.decisions O fromSlice M operation batch
    pure ()

theorem call_yields (hs : s.Sound O) (c : Call ε) :
    (call O fromSlice c).Yields s fun _ s' => After O s s' := by
  cases c with
  | append M recordId operation payload =>
    refine Mut.yields_bind ((append_yields hs).mono fun r s' h => ?_)
    cases r with
    | error e => exact h
    | ok record => exact h
  | decisions M operation batch =>
    refine Mut.yields_bind ((decisions_yields hs).mono fun r s' h => ?_)
    cases r with
    | error e => exact h
    | ok ids => exact h

/-- **The evidence graph licenses only fully authorized effects**, after every call of every run
from an empty store; and between any two states of the run, records stay and nothing but harmless
ones joins an operation that was completed in the first. -/
theorem evidence_licensed (O : Outside ε) (fromSlice : Bytes → Result (Archive ε))
    (installation : String) (calls : List (Call ε)) :
    (∀ e ∈ trace (call O fromSlice) (Store.empty installation) calls, Licensed O e.after.root) ∧
      (Store.empty installation ::
        (trace (call O fromSlice) (Store.empty installation) calls).map Entry.after).Pairwise
          Grows := by
  constructor
  · intro e he
    obtain ⟨-, -, hafter⟩ := trace_invariant (I := Store.Sound O) (T := fun _ _ _ _ => True)
      (fun s c hs => (call_yields hs c).mono fun _ _ h => ⟨trivial, h.sound⟩)
      (sound_empty installation) calls e he
    exact licensed_of_linked hafter.linked
  · exact trace_chain (I := Store.Sound O) (R := Grows) (fun _ _ _ => Grows.trans)
      (fun s c hs => (call_yields hs c).mono fun _ _ h => ⟨h.grows, h.sound⟩) calls
      (sound_empty installation)

end LumaOS.Policy
