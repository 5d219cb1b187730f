import LumaOS.Policy.Evidence

/-!
# What the link check accepts

`validate_record_links` works on the whole map: its lookups go to any record, its sets of ended
effects and operations are global, and it looks some decisions up without asking for their
operation. What it accepts is nevertheless a property of each operation on its own:

**`validateRecordLinks_iff`**: a map whose keys are its records' ids passes exactly when the records
of every operation are `Linked`.

The three loops are read one at a time: `starts_eq_ok` for the starts, `checkRecords_eq_ok` for the
records, `checkCompleted_eq_ok` for the completed operations.
-/

namespace LumaOS.Policy

open LumaOS.Base LumaOS.Text LumaOS.Json LumaOS.Governance

variable {ε : Type} {O : Outside ε} {records : Table (Record ε)} {operation : String}

variable {past : List (Record ε)} {r : Record ε} {scopes : List (String × Use)} {name : String}

/-! ## Linked operations -/

/-- Records under their names. -/
abbrev View (ε : Type) := String → Record ε → Prop

/-- The records of one operation. -/
def ofOperation (records : Table (Record ε)) (operation : String) : View ε := fun name r =>
  records[name]? = some r ∧ r.operationId = operation

/-- Each name is that of an allowing decision, no two of them on one grant. -/
def Refers (V : View ε) (names : List String) (decisions : List Decision) : Prop :=
  List.Forall₂ (fun name d => ∃ r, V name r ∧ r.payload = .decision d ∧ d.outcome = .allow)
      names decisions ∧ (decisions.map Decision.grantId).Nodup

/-- The typed evidence stands for the effect that began: its kind, and the usage and attribution of
its one decision. -/
def Supports (O : Outside ε) (operation : String) (V : View ε) (begin : Record ε) (e : ε) : Prop :=
  ∃ kind usage audit effectId name r d, O.evidenceAuthorization e = .ok (kind, usage, audit) ∧
    begin.payload = .effectStarted effectId kind [name] ∧ V name r ∧ r.payload = .decision d ∧
    d.evaluatedConstraints = usage ∧ ∀ a ∈ audit, checkAudit operation d a = .ok ()

/-- What `validate_record_links` asks of the records of one operation. -/
structure Linked (O : Outside ε) (operation : String) (V : View ε) : Prop where
  started : ∀ {k r}, V k r → ∃ k' r' scopes, V k' r' ∧ r'.payload = .operationStarted scopes
  start_unique : ∀ {k r s k' r' s'}, V k r → r.payload = .operationStarted s → V k' r' →
    r'.payload = .operationStarted s' → k = k'
  decision : ∀ {k r d k' r' scopes}, V k r → r.payload = .decision d → V k' r' →
    r'.payload = .operationStarted scopes →
      (d.grantId, d.evaluatedConstraints) ∈ scopes ∧ d.decisionId = r.recordId
  effect : ∀ {k r effectId kind names k' r' scopes}, V k r →
    r.payload = .effectStarted effectId kind names → V k' r' →
    r'.payload = .operationStarted scopes →
      names.length = scopes.length ∧ ∃ decisions, Refers V names decisions
  finished : ∀ {k r beginId sha256 receipt outcome evidence}, V k r →
    r.payload = .effectFinished beginId sha256 receipt outcome evidence →
      ∃ begin effectId kind names, V beginId begin ∧
        begin.payload = .effectStarted effectId kind names ∧
        O.digest (begin.toJson O) = sha256 ∧ ∀ e ∈ evidence, Supports O operation V begin e
  finished_unique : ∀ {k r k' r' beginId sha256 receipt outcome evidence sha256' receipt' outcome'
      evidence'}, V k r → r.payload = .effectFinished beginId sha256 receipt outcome evidence →
    V k' r' → r'.payload = .effectFinished beginId sha256' receipt' outcome' evidence' → k = k'
  ended_unique : ∀ {k r o k' r' o'}, V k r → r.payload = .operationFinished o → V k' r' →
    r'.payload = .operationFinished o' → k = k'
  allowed : ∀ {k r k' r'}, V k r → r.payload = .operationFinished .completed → V k' r' →
    r'.denies = false
  settled : ∀ {k r k' r' effectId kind names}, V k r → r.payload = .operationFinished .completed →
    V k' r' → r'.payload = .effectStarted effectId kind names →
      ∃ k'' r'' sha256 receipt outcome evidence, V k'' r'' ∧
        r''.payload = .effectFinished r'.recordId sha256 receipt outcome evidence
  certain : ∀ {k r k' r' beginId sha256 receipt outcome evidence}, V k r →
    r.payload = .operationFinished .completed → V k' r' →
    r'.payload = .effectFinished beginId sha256 receipt outcome evidence → outcome ≠ .uncertain

/-! ## The starts -/

/-- The scopes a record declares as a start. -/
def Record.scopes? (r : Record ε) : Option (List (String × Use)) :=
  match r.payload with
  | .operationStarted scopes => some scopes
  | _ => none

theorem scopes?_eq_some :
    r.scopes? = some scopes ↔ r.payload = .operationStarted scopes := by
  unfold Record.scopes?
  cases r.payload <;> simp

/-- The starts among the records read so far. -/
def startsOf (past : List (Record ε)) : Table (List (String × Use)) :=
  past.foldl (fun t r => match r.scopes? with
    | some scopes => t.insert r.operationId scopes
    | none => t) ∅

/-- Two records are not starts of one operation. -/
def StartsApart (x y : Record ε) : Prop :=
  x.scopes?.isSome = true → y.scopes?.isSome = true → x.operationId ≠ y.operationId

theorem startsOf_append (past : List (Record ε)) (r : Record ε) :
    startsOf (past ++ [r]) = match r.scopes? with
      | some scopes => (startsOf past).insert r.operationId scopes
      | none => startsOf past := by
  rw [startsOf, List.foldl_append]
  rfl

theorem get_startsOf (h : past.Pairwise StartsApart) : (startsOf past)[operation]? = some scopes ↔
      ∃ r ∈ past, r.operationId = operation ∧ r.payload = .operationStarted scopes := by
  induction past using List.reverseRecOn with
  | nil => simp [startsOf]
  | append_singleton past r ih =>
    obtain ⟨hpast, -, hapart⟩ := List.pairwise_append.mp h
    rw [startsOf_append]
    cases hr : r.scopes? with
    | none =>
      have hno : r.payload ≠ .operationStarted scopes := fun hp => by
        rw [scopes?_eq_some.mpr hp] at hr
        cases hr
      simp only [ih hpast, List.mem_append, List.mem_singleton, or_and_right, exists_or,
        exists_eq_left, hno, and_false, or_false]
    | some declared =>
      simp only [Table.get_insert]
      split
      · rename_i hop
        constructor
        · rintro ⟨⟩
          exact ⟨r, by simp, hop, scopes?_eq_some.mp hr⟩
        · rintro ⟨x, hx, hxop, hxs⟩
          rcases List.mem_append.mp hx with hx | hx
          · refine absurd (hxop.trans hop.symm) (hapart x hx r (by simp) ?_ ?_)
            · rw [scopes?_eq_some.mpr hxs]
              rfl
            · rw [hr]
              rfl
          · rw [List.mem_singleton.mp hx, ← scopes?_eq_some, hr] at hxs
            exact hxs
      · rename_i hop
        rw [ih hpast]
        constructor
        · rintro ⟨x, hx, hrest⟩
          exact ⟨x, List.mem_append_left _ hx, hrest⟩
        · rintro ⟨x, hx, hxop, hxs⟩
          rcases List.mem_append.mp hx with hx | hx
          · exact ⟨x, hx, hxop, hxs⟩
          · rw [List.mem_singleton.mp hx] at hxop
            exact absurd hxop hop

theorem collectStart_of_none (h : r.scopes? = none) (starts : Table (List (String × Use))) :
    collectStart starts r = .ok starts := by
  unfold collectStart
  cases hr : r.payload with
  | operationStarted scopes =>
    rw [scopes?_eq_some.mpr hr] at h
    cases h
  | _ => rfl

theorem collectStart_eq_ok (h : past.Pairwise StartsApart) (r : Record ε)
    (s : Table (List (String × Use))) : collectStart (startsOf past) r = .ok s ↔
      (∀ y ∈ past, StartsApart y r) ∧ s = startsOf (past ++ [r]) := by
  rw [startsOf_append]
  cases hr : r.scopes? with
  | none => simp [collectStart_of_none hr, StartsApart, hr, eq_comm (a := s)]
  | some scopes =>
    have hfresh : (startsOf past).contains r.operationId = false ↔ ∀ y ∈ past, StartsApart y r := by
      rw [← Bool.not_eq_true, Std.ExtTreeMap.contains_iff_mem, Table.mem_iff_get]
      constructor
      · intro hnone y hy hstart _ hop
        obtain ⟨declared, hdeclared⟩ := Option.isSome_iff_exists.mp hstart
        exact hnone ⟨declared, (get_startsOf h).mpr ⟨y, hy, hop, scopes?_eq_some.mp hdeclared⟩⟩
      · rintro hapart ⟨declared, hget⟩
        obtain ⟨y, hy, hop, hdeclared⟩ := (get_startsOf h).mp hget
        exact hapart y hy (by rw [scopes?_eq_some.mpr hdeclared]; rfl) (by rw [hr]; rfl) hop
    unfold collectStart
    rw [scopes?_eq_some.mp hr]
    simp only [bind_eq_ok, refuseIf_eq_ok, pure_eq_ok, exists_and_left, exists_const, hfresh,
      eq_comm (a := s)]

/-- **The first loop**: no operation starts twice. -/
theorem starts_eq_ok {xs : List (Record ε)} {starts : Table (List (String × Use))} :
    xs.foldlM collectStart ∅ = .ok starts ↔ xs.Pairwise StartsApart ∧ starts = startsOf xs := by
  have h := foldlM_pairwise (P := fun _ => True) (S := startsOf) (R := StartsApart)
    (fun past r s _ hpast => by simpa using collectStart_eq_ok hpast r s) xs [] starts (by simp)
    List.Pairwise.nil
  rw [List.nil_append] at h
  exact h.trans (and_iff_right fun _ _ => trivial)

/-! ## The records -/

theorem within_eq_some :
    within records operation name = some r ↔ ofOperation records operation name r := by
  simp [within, ofOperation, Option.filter_eq_some_iff]

theorem checkReference_eq_ok {seen seen' : Names} :
    checkReference records operation seen name = .ok seen' ↔
      ∃ r d, ofOperation records operation name r ∧ r.payload = .decision d ∧ d.outcome = .allow ∧
        d.grantId ∉ seen ∧ seen' = seen.insert d.grantId := by
  unfold checkReference
  rw [bind_eq_ok]
  constructor
  · rintro ⟨r, hr, h⟩
    rw [okOr_eq_ok, within_eq_some] at hr
    split at h
    · rename_i d hd
      simp only [bind_eq_ok, refuseIf_eq_ok, pure_eq_ok, Bool.not_eq_false', Bool.and_eq_true,
        beq_iff_eq, Bool.not_eq_true'] at h
      obtain ⟨_, ⟨hallow, hseen⟩, rfl⟩ := h
      refine ⟨r, d, hr, hd, hallow, ?_, rfl⟩
      rw [Std.ExtTreeSet.mem_iff_contains, hseen]
      exact Bool.false_ne_true
    · exact absurd h refuse_ne_ok
  · rintro ⟨r, d, hr, hd, hallow, hseen, rfl⟩
    refine ⟨r, okOr_eq_ok.mpr (within_eq_some.mpr hr), ?_⟩
    rw [Std.ExtTreeSet.mem_iff_contains, Bool.not_eq_true] at hseen
    simp [hd, hallow, hseen, refuseIf, pure, Except.pure, bind, Except.bind]

theorem references_from {names : List String} : ∀ seen : Names,
    (∃ seen', names.foldlM (checkReference records operation) seen = .ok seen') ↔
      ∃ decisions, Refers (ofOperation records operation) names decisions ∧
        ∀ d ∈ decisions, d.grantId ∉ seen := by
  induction names with
  | nil =>
    intro seen
    constructor
    · exact fun _ => ⟨[], ⟨.nil, List.nodup_nil⟩, fun d hd => absurd hd List.not_mem_nil⟩
    · exact fun _ => ⟨seen, rfl⟩
  | cons name names ih =>
    intro seen
    simp only [List.foldlM_cons, bind_eq_ok]
    constructor
    · rintro ⟨seen', mid, hmid, hrest⟩
      obtain ⟨r, d, hr, hd, hallow, hfresh, rfl⟩ := checkReference_eq_ok.mp hmid
      obtain ⟨ds, ⟨hds, hnodup⟩, hunseen⟩ := (ih _).mp ⟨seen', hrest⟩
      have hapart : ∀ d' ∈ ds, d'.grantId ≠ d.grantId ∧ d'.grantId ∉ seen := fun d' hd' => by
        have := hunseen d' hd'
        rw [Names.mem_insert, not_or] at this
        exact ⟨fun he => this.1 he.symm, this.2⟩
      refine ⟨d :: ds, ⟨.cons ⟨r, hr, hd, hallow⟩ hds, ?_⟩, ?_⟩
      · refine List.nodup_cons.mpr ⟨fun hmem => ?_, hnodup⟩
        obtain ⟨d', hd', he⟩ := List.mem_map.mp hmem
        exact (hapart d' hd').1 he
      · exact List.forall_mem_cons.mpr ⟨hfresh, fun d' hd' => (hapart d' hd').2⟩
    · rintro ⟨decisions, ⟨hrefers, hnodup⟩, hunseen⟩
      cases hrefers with
      | cons hfirst hrest =>
        rename_i d ds
        obtain ⟨r, hr, hd, hallow⟩ := hfirst
        obtain ⟨hfresh, hunseen⟩ := List.forall_mem_cons.mp hunseen
        obtain ⟨hnot, hnodup⟩ := List.nodup_cons.mp hnodup
        obtain ⟨seen', hseen'⟩ := (ih (seen.insert d.grantId)).mpr
          ⟨ds, ⟨hrest, hnodup⟩, fun d' hd' hmem => by
            rcases Names.mem_insert.mp hmem with he | hmem
            · exact hnot (List.mem_map.mpr ⟨d', hd', he.symm⟩)
            · exact hunseen d' hd' hmem⟩
        exact ⟨seen', seen.insert d.grantId,
          checkReference_eq_ok.mpr ⟨r, d, hr, hd, hallow, hfresh, rfl⟩, hseen'⟩

/-- The decisions an effect refers to. -/
theorem references_eq_ok {names : List String} :
    (∃ seen, names.foldlM (checkReference records operation) ∅ = .ok seen) ↔
      ∃ decisions, Refers (ofOperation records operation) names decisions := by
  rw [references_from]
  constructor
  · rintro ⟨decisions, hrefers, -⟩
    exact ⟨decisions, hrefers⟩
  · rintro ⟨decisions, hrefers⟩
    exact ⟨decisions, hrefers, fun _ _ => by simp⟩

theorem checkEvidence_eq_ok {begin : Record ε} {e : ε} {u : Unit} :
    checkEvidence O records operation begin e = .ok u ↔
      ∃ kind usage audit effectId name r d, O.evidenceAuthorization e = .ok (kind, usage, audit) ∧
        begin.payload = .effectStarted effectId kind [name] ∧ records[name]? = some r ∧
        r.payload = .decision d ∧ d.evaluatedConstraints = usage ∧
        ∀ a ∈ audit, checkAudit operation d a = .ok () := by
  unfold checkEvidence
  rw [bind_eq_ok]
  constructor
  · rintro ⟨⟨kind, usage, audit⟩, hauth, h⟩
    dsimp only at h
    split at h
    · rename_i effectId effectKind decisionIds hbegin
      obtain ⟨_, hkind, hids⟩ := bind_eq_ok.mp h
      rw [refuseIf_eq_ok, bne_eq_false_iff_eq] at hkind
      subst hkind
      rcases decisionIds with _ | ⟨name, _ | ⟨second, rest⟩⟩
      · exact absurd hids refuse_ne_ok
      · obtain ⟨r, hr, hpayload⟩ := bind_eq_ok.mp hids
        cases hd : r.payload with
        | decision d =>
          rw [hd] at hpayload
          obtain ⟨_, husage, haudit⟩ := bind_eq_ok.mp hpayload
          rw [refuseIf_eq_ok, bne_eq_false_iff_eq] at husage
          exact ⟨_, usage, audit, effectId, name, r, d, hauth, hbegin, okOr_eq_ok.mp hr, hd, husage,
            fun a ha => forM_eq_ok.mp haudit a (Option.mem_toList.mpr ha)⟩
        | _ =>
          rw [hd] at hpayload
          exact absurd hpayload refuse_ne_ok
      · exact absurd hids refuse_ne_ok
    · exact absurd h refuse_ne_ok
  · rintro ⟨kind, usage, audit, effectId, name, r, d, hauth, hbegin, hr, hd, husage, haudit⟩
    refine ⟨_, hauth, ?_⟩
    simp only [hbegin, hr, hd, husage, bne_self_eq_false, okOr, refuseIf, bind, Except.bind,
      Bool.false_eq_true, if_false]
    exact forM_eq_ok.mpr fun a ha => haudit a (Option.mem_toList.mp ha)

/-- The effect a record ends. -/
def Record.beginId? (r : Record ε) : Option String :=
  match r.payload with
  | .effectFinished beginId _ _ _ _ => some beginId
  | _ => none

/-- The operation a record ends. -/
def Record.ended? (r : Record ε) : Option String :=
  match r.payload with
  | .operationFinished _ => some r.operationId
  | _ => none

/-- Two records do not end one effect, nor one operation. -/
def EndsApart (x y : Record ε) : Prop :=
  (∀ b, x.beginId? = some b → y.beginId? ≠ some b) ∧ ∀ o, x.ended? = some o → y.ended? ≠ some o

/-- The effects and the operations that the records read so far end. -/
def endsOf (past : List (Record ε)) : Names × Names :=
  ((past.filterMap Record.beginId?).foldl (fun s b => s.insert b) ∅,
    (past.filterMap Record.ended?).foldl (fun s o => s.insert o) ∅)

/-- A record fits an operation of these scopes. -/
def Fits (O : Outside ε) (records : Table (Record ε)) (operation : String)
    (scopes : List (String × Use)) (r : Record ε) : Prop :=
  match r.payload with
  | .decision d => (d.grantId, d.evaluatedConstraints) ∈ scopes ∧ d.decisionId = r.recordId
  | .effectStarted _ _ names => names.length = scopes.length ∧
      ∃ decisions, Refers (ofOperation records operation) names decisions
  | .effectFinished beginId sha256 _ _ evidence =>
      ∃ begin, effectBegin records operation beginId = some begin ∧
        O.digest (begin.toJson O) = sha256 ∧
        ∀ e ∈ evidence, checkEvidence O records operation begin e = .ok ()
  | .operationFinished _ => True
  | .operationStarted _ => True

/-- What the second loop asks of one record, whatever it has read before. -/
def Checked (O : Outside ε) (records : Table (Record ε)) (starts : Table (List (String × Use)))
    (r : Record ε) : Prop :=
  ∃ scopes, starts[r.operationId]? = some scopes ∧ Fits O records r.operationId scopes r

theorem mem_endsOf_fst {b : String} :
    b ∈ (endsOf past).1 ↔ ∃ r ∈ past, r.beginId? = some b := by
  simp [endsOf, Names.mem_insertAll]

theorem mem_endsOf_snd {o : String} :
    o ∈ (endsOf past).2 ↔ ∃ r ∈ past, r.ended? = some o := by
  simp [endsOf, Names.mem_insertAll]

theorem endsOf_append (past : List (Record ε)) (r : Record ε) :
    endsOf (past ++ [r]) = (r.beginId?.elim (endsOf past).1 (endsOf past).1.insert,
      r.ended?.elim (endsOf past).2 (endsOf past).2.insert) := by
  unfold endsOf
  simp only [List.filterMap_append, List.foldl_append, List.filterMap_cons, List.filterMap_nil]
  cases r.beginId? <;> cases r.ended? <;> rfl

theorem checkRecord_eq_ok (starts : Table (List (String × Use))) (past : List (Record ε))
    (r : Record ε) (s : Names × Names) : checkRecord O records starts (endsOf past) r = .ok s ↔
      (Checked O records starts r ∧ ∀ y ∈ past, EndsApart y r) ∧ s = endsOf (past ++ [r]) := by
  have hapart : (∀ y ∈ past, EndsApart y r) ↔
      (∀ b, r.beginId? = some b → b ∉ (endsOf past).1) ∧
        ∀ o, r.ended? = some o → o ∉ (endsOf past).2 := by
    simp only [mem_endsOf_fst, mem_endsOf_snd, EndsApart, not_exists, not_and]
    constructor
    · exact fun h => ⟨fun b hb y hy hyb => (h y hy).1 b hyb hb,
        fun o ho y hy hyo => (h y hy).2 o hyo ho⟩
    · exact fun h y hy => ⟨fun b hyb hb => h.1 b hb y hy hyb, fun o hyo ho => h.2 o ho y hy hyo⟩
  have hcontains : ∀ (set : Names) (a : String), set.contains a = false ↔ a ∉ set := fun set a => by
    rw [Std.ExtTreeSet.mem_iff_contains, Bool.not_eq_true]
  rw [hapart, endsOf_append]
  unfold checkRecord Checked Fits Record.beginId? Record.ended?
  rw [bind_eq_ok]
  cases hr : r.payload with
  | operationStarted scopes => simp [okOr_eq_ok, pure_eq_ok, eq_comm (a := s)]
  | decision d =>
    have hscope : ∀ scopes : List (String × Use), (scopes.any fun s =>
        s.1 == d.grantId && s.2 == d.evaluatedConstraints) = true ↔
          (d.grantId, d.evaluatedConstraints) ∈ scopes := by
      simp [Prod.exists]
    simp only [okOr_eq_ok, bind_eq_ok, refuseIf_eq_ok, pure_eq_ok, Bool.or_eq_false_iff,
      Bool.not_eq_false', bne_eq_false_iff_eq, hscope]
    constructor
    · rintro ⟨scopes, hscopes, _, hd, rfl⟩
      exact ⟨⟨⟨scopes, hscopes, hd⟩, by simp⟩, rfl⟩
    · rintro ⟨⟨⟨scopes, hscopes, hd⟩, -⟩, rfl⟩
      exact ⟨scopes, hscopes, (), hd, rfl⟩
  | effectStarted effectId kind names =>
    simp only [okOr_eq_ok, bind_eq_ok, refuseIf_eq_ok, pure_eq_ok, bne_eq_false_iff_eq]
    constructor
    · rintro ⟨scopes, hscopes, _, hlength, seen, hseen, rfl⟩
      exact ⟨⟨⟨scopes, hscopes, hlength, references_eq_ok.mp ⟨seen, hseen⟩⟩, by simp⟩, rfl⟩
    · rintro ⟨⟨⟨scopes, hscopes, hlength, hrefers⟩, -⟩, rfl⟩
      obtain ⟨seen, hseen⟩ := references_eq_ok.mpr hrefers
      exact ⟨scopes, hscopes, (), hlength, seen, hseen, rfl⟩
  | effectFinished beginId sha256 receipt outcome evidence =>
    simp only [okOr_eq_ok, bind_eq_ok, refuseIf_eq_ok, pure_eq_ok, Bool.or_eq_false_iff,
      bne_eq_false_iff_eq, hcontains, forM_eq_ok, Option.mem_toList]
    constructor
    · rintro ⟨scopes, hscopes, begin, hbegin, _, ⟨hfresh, hsha⟩, _, hevidence, rfl⟩
      exact ⟨⟨⟨scopes, hscopes, begin, hbegin, hsha, hevidence⟩, by simpa using hfresh⟩, rfl⟩
    · rintro ⟨⟨⟨scopes, hscopes, begin, hbegin, hsha, hevidence⟩, hfresh, -⟩, rfl⟩
      exact ⟨scopes, hscopes, begin, hbegin, (), ⟨hfresh beginId rfl, hsha⟩, (), hevidence, rfl⟩
  | operationFinished outcome =>
    simp only [okOr_eq_ok, bind_eq_ok, refuseIf_eq_ok, pure_eq_ok, hcontains]
    constructor
    · rintro ⟨scopes, hscopes, _, hfresh, rfl⟩
      exact ⟨⟨⟨scopes, hscopes, trivial⟩, by simpa using hfresh⟩, rfl⟩
    · rintro ⟨⟨⟨scopes, hscopes, -⟩, -, hfresh⟩, rfl⟩
      exact ⟨scopes, hscopes, (), hfresh _ rfl, rfl⟩

/-- **The second loop**: every record is linked, and no effect or operation ends twice. -/
theorem checkRecords_eq_ok {xs : List (Record ε)} {starts : Table (List (String × Use))}
    {ends : Names × Names} : xs.foldlM (checkRecord O records starts) (∅, ∅) = .ok ends ↔
      (∀ r ∈ xs, Checked O records starts r) ∧ xs.Pairwise EndsApart ∧ ends = endsOf xs := by
  have h := foldlM_pairwise (P := Checked O records starts) (S := endsOf) (R := EndsApart)
    (fun past r s _ _ => checkRecord_eq_ok starts past r s) xs [] ends (by simp) List.Pairwise.nil
  rw [List.nil_append] at h
  exact h

/-! ## Completed operations -/

theorem completes_iff :
    r.completes = true ↔ r.payload = .operationFinished .completed := by
  unfold Record.completes
  cases hr : r.payload with
  | operationFinished outcome => cases outcome <;> simp
  | _ => simp

theorem uncertain_eq_false {effectTerminals : Names} :
    r.uncertain effectTerminals = false ↔
      (∀ {effectId kind names}, r.payload = .effectStarted effectId kind names →
        r.recordId ∈ effectTerminals) ∧
      ∀ {beginId sha256 receipt outcome evidence},
        r.payload = .effectFinished beginId sha256 receipt outcome evidence →
          outcome ≠ .uncertain := by
  unfold Record.uncertain
  cases hr : r.payload with
  | effectStarted effectId kind names => simp
  | effectFinished beginId sha256 receipt outcome evidence =>
    simp only [beq_eq_false_iff_ne, ne_eq, reduceCtorEq, false_implies, implies_true, true_and]
    constructor
    · rintro h _ _ _ _ _ ⟨⟩
      exact h
    · exact fun h => h rfl
  | _ => simp

/-- **The last loop**: a completed operation has no denial and no open effect. -/
theorem checkCompleted_eq_ok {xs : List (Record ε)} {effectTerminals : Names} {u : Unit} :
    xs.forM (checkCompleted records effectTerminals) = .ok u ↔
      ∀ r ∈ xs, r.payload = .operationFinished .completed → ∀ other ∈ Table.values records,
        other.operationId = r.operationId →
          other.denies = false ∧ other.uncertain effectTerminals = false := by
  rw [forM_eq_ok]
  refine forall₂_congr fun r _ => ?_
  simp only [checkCompleted, bind_eq_ok, refuseIf_eq_ok, Bool.and_eq_false_imp, completes_iff,
    List.any_eq_false, Bool.and_eq_true, beq_iff_eq, not_and, Bool.not_eq_true, exists_and_left,
    exists_const]
  constructor
  · exact fun h hr other ho hop => ⟨h.1 hr other ho hop, h.2 hr other ho hop⟩
  · exact fun h => ⟨fun hr other ho hop => (h hr other ho hop).1,
      fun hr other ho hop => (h hr other ho hop).2⟩

/-! ## The whole check -/

/-- The map's keys are its records' ids. -/
def Keyed (records : Table (Record ε)) : Prop :=
  ∀ (name : String) (r : Record ε), records[name]? = some r → r.recordId = name

theorem get_starts (h : (Table.values records).Pairwise StartsApart) :
    (startsOf (Table.values records))[operation]? = some scopes ↔
      ∃ k r, ofOperation records operation k r ∧ r.payload = .operationStarted scopes := by
  rw [get_startsOf h]
  constructor
  · rintro ⟨r, hr, hop, hs⟩
    obtain ⟨k, hk⟩ := Table.mem_values.mp hr
    exact ⟨k, r, ⟨hk, hop⟩, hs⟩
  · rintro ⟨k, r, ⟨hk, hop⟩, hs⟩
    exact ⟨r, Table.mem_values.mpr ⟨k, hk⟩, hop, hs⟩

theorem startsApart_iff : (Table.values records).Pairwise StartsApart ↔
    ∀ operation {k r s k' r' s'}, ofOperation records operation k r →
      r.payload = .operationStarted s → ofOperation records operation k' r' →
      r'.payload = .operationStarted s' → k = k' := by
  rw [Table.pairwise_values fun x y h hy hx he => h hx hy he.symm]
  constructor
  · intro h operation k r s k' r' s' hr hs hr' hs'
    by_contra hne
    refine h k k' r r' hr.1 hr'.1 hne ?_ ?_ (hr.2.trans hr'.2.symm)
    · rw [scopes?_eq_some.mpr hs]
      rfl
    · rw [scopes?_eq_some.mpr hs']
      rfl
  · intro h a b x y hx hy hne hxs hys hop
    obtain ⟨s, hs⟩ := Option.isSome_iff_exists.mp hxs
    obtain ⟨s', hs'⟩ := Option.isSome_iff_exists.mp hys
    exact hne (h _ ⟨hx, hop⟩ (scopes?_eq_some.mp hs) ⟨hy, rfl⟩ (scopes?_eq_some.mp hs'))

theorem beginId?_eq_some {beginId : String} : r.beginId? = some beginId ↔
    ∃ sha256 receipt outcome evidence,
      r.payload = .effectFinished beginId sha256 receipt outcome evidence := by
  unfold Record.beginId?
  cases r.payload <;> simp

theorem ended?_eq_some : r.ended? = some operation ↔
    r.operationId = operation ∧ ∃ outcome, r.payload = .operationFinished outcome := by
  unfold Record.ended?
  cases r.payload <;> simp

theorem endsApart_iff : (Table.values records).Pairwise EndsApart ↔
    ∀ (a b : String) x y, records[a]? = some x → records[b]? = some y → a ≠ b → EndsApart x y := by
  refine Table.pairwise_values fun x y h => ?_
  exact ⟨fun b hy hx => h.1 b hx hy, fun o hy hx => h.2 o hx hy⟩

theorem effectBegin_eq_some {begin : Record ε} :
    effectBegin records operation name = some begin ↔ ofOperation records operation name begin ∧
      ∃ effectId kind names, begin.payload = .effectStarted effectId kind names := by
  rw [effectBegin, Option.filter_eq_some_iff, within_eq_some]
  refine and_congr_right fun _ => ?_
  cases begin.payload <;> simp

/-- What the three loops establish of a whole map. -/
structure Passes (O : Outside ε) (records : Table (Record ε)) : Prop where
  starts : (Table.values records).Pairwise StartsApart
  checked : ∀ r ∈ Table.values records, Checked O records (startsOf (Table.values records)) r
  ends : (Table.values records).Pairwise EndsApart
  completed : ∀ r ∈ Table.values records, r.payload = .operationFinished .completed →
    ∀ other ∈ Table.values records, other.operationId = r.operationId →
      other.denies = false ∧ other.uncertain (endsOf (Table.values records)).1 = false

theorem validateRecordLinks_eq_ok {u : Unit} :
    validateRecordLinks O records = .ok u ↔ Passes O records := by
  simp only [validateRecordLinks, bind_eq_ok]
  constructor
  · rintro ⟨_, hstarts, _, hrecords, hlast⟩
    obtain ⟨hapart, rfl⟩ := starts_eq_ok.mp hstarts
    obtain ⟨hchecked, hends, rfl⟩ := checkRecords_eq_ok.mp hrecords
    exact ⟨hapart, hchecked, hends, checkCompleted_eq_ok.mp hlast⟩
  · intro h
    exact ⟨_, starts_eq_ok.mpr ⟨h.starts, rfl⟩, _, checkRecords_eq_ok.mpr ⟨h.checked, h.ends, rfl⟩,
      checkCompleted_eq_ok.mpr h.completed⟩

section Passes

variable {k k' : String} {r r' : Record ε} {scopes : List (String × Use)}

/-- Every record fits the scopes its operation started with. -/
theorem Passes.fits (h : Passes O records) (hr : ofOperation records operation k r)
    (hr' : ofOperation records operation k' r') (hs : r'.payload = .operationStarted scopes) :
    Fits O records operation scopes r := by
  obtain ⟨scopes', hscopes', hfits⟩ := h.checked r (Table.mem_values.mpr ⟨k, hr.1⟩)
  rw [hr.2] at hscopes' hfits
  rw [(get_starts h.starts).mpr ⟨k', r', hr', hs⟩] at hscopes'
  cases hscopes'
  exact hfits

theorem Passes.started (h : Passes O records) (hr : ofOperation records operation k r) :
    ∃ k' r' scopes, ofOperation records operation k' r' ∧
      r'.payload = .operationStarted scopes := by
  obtain ⟨scopes, hscopes, -⟩ := h.checked r (Table.mem_values.mpr ⟨k, hr.1⟩)
  rw [hr.2] at hscopes
  obtain ⟨k', r', hr', hs⟩ := (get_starts h.starts).mp hscopes
  exact ⟨k', r', scopes, hr', hs⟩

/-- The lookups that do not ask for the operation stay in it: the effect that began has been linked
itself. -/
theorem Passes.supports (h : Passes O records) {begin : Record ε} {name : String} {e : ε}
    (hbegin : ofOperation records operation name begin)
    (he : checkEvidence O records operation begin e = .ok ()) :
    Supports O operation (ofOperation records operation) begin e := by
  obtain ⟨kind, usage, audit, effectId, decision, r, d, hauth, hpayload, hr, hd, husage, haudit⟩ :=
    checkEvidence_eq_ok.mp he
  obtain ⟨k', r', scopes, hr', hs⟩ := h.started hbegin
  have hfits := h.fits hbegin hr' hs
  simp only [Fits, hpayload] at hfits
  obtain ⟨-, decisions, hrefers, -⟩ := hfits
  cases hrefers with
  | cons hfirst _ =>
    obtain ⟨r₀, hr₀, -, -⟩ := hfirst
    have hsame : r = r₀ := Option.some.inj (hr.symm.trans hr₀.1)
    rw [← hsame] at hr₀
    exact ⟨kind, usage, audit, effectId, decision, r, d, hauth, hpayload, hr₀, hd, husage, haudit⟩

theorem Passes.linked (h : Passes O records) (hkeyed : Keyed records) (operation : String) :
    Linked O operation (ofOperation records operation) where
  started hr := h.started hr
  start_unique hr hs hr' hs' := startsApart_iff.mp h.starts operation hr hs hr' hs'
  decision hr hd hr' hs := by
    have hfits := h.fits hr hr' hs
    rw [Fits, hd] at hfits
    exact hfits
  effect hr hd hr' hs := by
    have hfits := h.fits hr hr' hs
    rw [Fits, hd] at hfits
    exact hfits
  finished hr hd := by
    obtain ⟨k', r', scopes, hr', hs⟩ := h.started hr
    have hfits := h.fits hr hr' hs
    rw [Fits, hd] at hfits
    obtain ⟨begin, hbegin, hsha, hevidence⟩ := hfits
    obtain ⟨hbegin, effectId, kind, names, hpayload⟩ := effectBegin_eq_some.mp hbegin
    exact ⟨begin, effectId, kind, names, hbegin, hpayload, hsha,
      fun e he => h.supports hbegin (hevidence e he)⟩
  finished_unique hr hd hr' hd' := by
    by_contra hne
    exact (endsApart_iff.mp h.ends _ _ _ _ hr.1 hr'.1 hne).1 _
      (beginId?_eq_some.mpr ⟨_, _, _, _, hd⟩) (beginId?_eq_some.mpr ⟨_, _, _, _, hd'⟩)
  ended_unique hr hd hr' hd' := by
    by_contra hne
    exact (endsApart_iff.mp h.ends _ _ _ _ hr.1 hr'.1 hne).2 operation
      (ended?_eq_some.mpr ⟨hr.2, _, hd⟩) (ended?_eq_some.mpr ⟨hr'.2, _, hd'⟩)
  allowed hr hd hr' :=
    (h.completed _ (Table.mem_values.mpr ⟨_, hr.1⟩) hd _ (Table.mem_values.mpr ⟨_, hr'.1⟩)
      (hr'.2.trans hr.2.symm)).1
  settled hr hd hr' he := by
    have hmem := (uncertain_eq_false.mp (h.completed _ (Table.mem_values.mpr ⟨_, hr.1⟩) hd _
      (Table.mem_values.mpr ⟨_, hr'.1⟩) (hr'.2.trans hr.2.symm)).2).1 he
    obtain ⟨x, hx, hbegin⟩ := mem_endsOf_fst.mp hmem
    obtain ⟨k, hk⟩ := Table.mem_values.mp hx
    obtain ⟨sha256, receipt, outcome, evidence, hpayload⟩ := beginId?_eq_some.mp hbegin
    refine ⟨k, x, sha256, receipt, outcome, evidence, ⟨hk, ?_⟩, hpayload⟩
    -- the effect it ends is in its own operation, and keys are ids, so it is this one
    have hx' : ofOperation records x.operationId k x := ⟨hk, rfl⟩
    obtain ⟨k', r', scopes, hr'', hs⟩ := h.started hx'
    have hfits := h.fits ⟨hk, rfl⟩ hr'' hs
    rw [Fits, hpayload] at hfits
    obtain ⟨begin, hfound, -, -⟩ := hfits
    obtain ⟨⟨hget, hop⟩, -⟩ := effectBegin_eq_some.mp hfound
    rw [hkeyed _ _ hr'.1, hr'.1] at hget
    rw [← hop, ← Option.some.inj hget]
    exact hr'.2
  certain hr hd hr' he :=
    (uncertain_eq_false.mp (h.completed _ (Table.mem_values.mpr ⟨_, hr.1⟩) hd _
      (Table.mem_values.mpr ⟨_, hr'.1⟩) (hr'.2.trans hr.2.symm)).2).2 he

theorem checked_of_linked (h : ∀ operation, Linked O operation (ofOperation records operation))
    (hstarts : (Table.values records).Pairwise StartsApart) (hr : records[k]? = some r) :
    Checked O records (startsOf (Table.values records)) r := by
  have hlinked := h r.operationId
  have hr : ofOperation records r.operationId k r := ⟨hr, rfl⟩
  obtain ⟨k', r', scopes, hr', hs⟩ := hlinked.started hr
  refine ⟨scopes, (get_starts hstarts).mpr ⟨k', r', hr', hs⟩, ?_⟩
  unfold Fits
  split
  · rename_i d hd
    exact hlinked.decision hr hd hr' hs
  · rename_i effectId kind names hd
    exact hlinked.effect hr hd hr' hs
  · rename_i beginId sha256 receipt outcome evidence hd
    obtain ⟨begin, effectId, kind, names, hbegin, hpayload, hsha, hevidence⟩ :=
      hlinked.finished hr hd
    refine ⟨begin, effectBegin_eq_some.mpr ⟨hbegin, effectId, kind, names, hpayload⟩, hsha, ?_⟩
    intro e he
    obtain ⟨kind, usage, audit, effectId, name, r₀, d, hauth, hpayload, hr₀, hd, husage, haudit⟩ :=
      hevidence e he
    exact checkEvidence_eq_ok.mpr
      ⟨kind, usage, audit, effectId, name, r₀, d, hauth, hpayload, hr₀.1, hd, husage, haudit⟩
  · trivial
  · trivial

/-- Two ends of one effect are in the operation of that effect. -/
theorem endsApart_of_linked (h : ∀ operation, Linked O operation (ofOperation records operation))
    (hr : records[k]? = some r) (hr' : records[k']? = some r') (hne : k ≠ k') : EndsApart r r' := by
  refine ⟨fun b hb hb' => hne ?_, fun o ho ho' => hne ?_⟩
  · obtain ⟨_, _, _, _, hd⟩ := beginId?_eq_some.mp hb
    obtain ⟨_, _, _, _, hd'⟩ := beginId?_eq_some.mp hb'
    obtain ⟨begin, _, _, _, hbegin, -⟩ := (h r.operationId).finished ⟨hr, rfl⟩ hd
    obtain ⟨begin', _, _, _, hbegin', -⟩ := (h r'.operationId).finished ⟨hr', rfl⟩ hd'
    have hsame : begin = begin' := Option.some.inj (hbegin.1.symm.trans hbegin'.1)
    have hop : r'.operationId = r.operationId := by rw [← hbegin.2, ← hbegin'.2, hsame]
    exact (h r.operationId).finished_unique ⟨hr, rfl⟩ hd ⟨hr', hop⟩ hd'
  · obtain ⟨hop, _, hd⟩ := ended?_eq_some.mp ho
    obtain ⟨hop', _, hd'⟩ := ended?_eq_some.mp ho'
    exact (h o).ended_unique ⟨hr, hop⟩ hd ⟨hr', hop'⟩ hd'

theorem passes_of_linked (h : ∀ operation, Linked O operation (ofOperation records operation)) :
    Passes O records := by
  have hstarts : (Table.values records).Pairwise StartsApart :=
    startsApart_iff.mpr fun operation _ _ _ _ _ _ hr hs hr' hs' =>
      (h operation).start_unique hr hs hr' hs'
  refine ⟨hstarts, fun r hr => ?_, ?_, fun r hr hd other hother hop => ?_⟩
  · obtain ⟨k, hk⟩ := Table.mem_values.mp hr
    exact checked_of_linked h hstarts hk
  · exact endsApart_iff.mpr fun a b x y hx hy hne => endsApart_of_linked h hx hy hne
  · obtain ⟨k, hk⟩ := Table.mem_values.mp hr
    obtain ⟨k', hk'⟩ := Table.mem_values.mp hother
    have hlinked := h r.operationId
    refine ⟨hlinked.allowed ⟨hk, rfl⟩ hd ⟨hk', hop⟩, uncertain_eq_false.mpr ⟨fun he => ?_, ?_⟩⟩
    · obtain ⟨k'', r'', _, _, _, _, hr'', hd''⟩ := hlinked.settled ⟨hk, rfl⟩ hd ⟨hk', hop⟩ he
      exact mem_endsOf_fst.mpr ⟨r'', Table.mem_values.mpr ⟨k'', hr''.1⟩,
        beginId?_eq_some.mpr ⟨_, _, _, _, hd''⟩⟩
    · exact fun he => hlinked.certain ⟨hk, rfl⟩ hd ⟨hk', hop⟩ he

end Passes

/-- **The check looks at one operation at a time.** -/
theorem validateRecordLinks_iff (hkeyed : Keyed records) {u : Unit} :
    validateRecordLinks O records = .ok u ↔
      ∀ operation, Linked O operation (ofOperation records operation) := by
  rw [validateRecordLinks_eq_ok]
  exact ⟨fun h operation => h.linked hkeyed operation, passes_of_linked⟩

end LumaOS.Policy
