import LumaOS.Governance.ReleaseHistory
import LumaOS.Governance.Transactions

/-!
# What one command does to the catalog

`Effect c c'` lists the changes a successful branch of `Catalog::apply` can make, with the guards
it passed: fourteen shapes for thirty-three commands. Everything later is derived from it; no other
proof opens a branch.

**`safe_branch`**: on a fenced catalog every branch either refuses and leaves the catalog, or
returns `false` and leaves it, or returns `true` after an effect. It never panics. The two branches
that write before a fallible step cannot fail there: a stored intent's generation is not
`u64::MAX`, and a pending activation's principal is in the aging set.
-/

namespace LumaOS.Governance

open LumaOS.Base LumaOS.Text

namespace Catalog

/-- The guards of a preparation: what supports the transaction, and the next generation of its
principal. -/
def Preparable (c : Catalog) (generation : UInt64) : Transaction → Prop
  | .creation t => generation = 1 ∧ c.principalStates[t.intent.principal.id]? = none ∧
      c.installed = some t.intent.registryBefore ∧ c.Supported (.creation t)
  | .deletion t => c.Supported (.deletion t) ∧ ∃ r, c.record t.intent.principal = some r ∧
      generation.toNat = (c.generationOf t.intent.principal r).toNat + 1
  | .transition t => c.Supported (.transition t) ∧ ∃ r, c.record t.intent.principal = some r ∧
      generation.toNat = (c.generationOf t.intent.principal r).toNat + 1

/-- What `DefineRole` checks of a role it writes. -/
structure RoleOk (r : Role) : Prop where
  version : r.version ≠ 0
  activities : r.activities ≠ [] ∧ r.activities.length ≤ 64
  identifiers : ∀ v ∈ r.activities, identifier v = true

/-- **One change of the catalog.** -/
inductive Effect (c : Catalog) : Catalog → Prop
  | elsewhere {modelTrust : Option ModelState} {modelApprovals : Table Approval}
      {modelSignings : Table ModelStatement} {skillTrust : Option SkillState}
      {release : Option ReleaseState} {activities : Names} {assignmentReceipts : Table String} :
      Effect c { c with
        modelTrust, modelApprovals, modelSignings, skillTrust, release, activities
        assignmentReceipts }
  | roleDefined {r : Role} : RoleOk r →
      (∀ old : Role, c.roles[r.name]? = some old → old.version < r.version) →
      Effect c { c with roles := c.roles.insert r.name r }
  | assigned {a : Assignment} : a.validate = .ok () → c.assignments[a.id]? = none →
      Effect c { c with assignments := c.assignments.insert a.id a }
  | assignmentRevoked {id : String} {a : Assignment} {version : UInt64} :
      c.assignments[id]? = some a → version.toNat = a.version.toNat + 1 →
      Effect c { c with assignments := c.assignments.insert id { a with version, revoked := true } }
  | issued {g : Grant} : g.issue c = .ok () → c.grants[g.id]? = none →
      Effect c { c with grants := c.grants.insert g.id g }
  | grantRevoked {id : String} {g : Grant} {version : UInt64} : c.grants[id]? = some g →
      version.toNat = g.version.toNat + 1 →
      Effect c { c with grants := c.grants.insert id { g with version, revoked := true } }
  | prepared {id : String} {x : Transaction} {generation : UInt64}
      {accountCommitments : Table String} {adminRecovery : Option Verifier} :
      c.Quiet → c.Preparable generation x →
      (∀ p, p ∈ c.accountCommitments → p ∈ accountCommitments) → (∀ y, ¬ c.Holds id y) →
      Effect c { c.put id x with
        principalStates := c.principalStates.insert x.principal { generation, enabled := false }
        accountCommitments, adminRecovery }
  | permitted {id : String} {x : Transaction} : c.Pending id x →
      Effect c (c.put id (x.withPhase .publicationPermitted))
  | creationCompleted {id : String} {t : Creation} : c.Pending id (.creation t) →
      c.installed = some t.intent.registryBefore →
      Effect c { c.put id (.creation { t with phase := .complete }) with
        currentRegistry := some t.intent.registryAfter
        accountCommitments :=
          c.accountCommitments.insert t.intent.principal.id t.intent.credentialAfter
        needsPasswordAging := c.needsPasswordAging.insert t.intent.principal.id }
  | deletionCompleted {id : String} {t : Deletion} : c.Pending id (.deletion t) →
      Effect c { c.put id (.deletion { t with phase := .complete }) with
        deletedPrincipals := c.deletedPrincipals.insert t.intent.principal }
  | transitionCompleted {id : String} {t : Transition} {generation : UInt64} :
      c.Pending id (.transition t) →
      c.principalStates[t.intent.principal]? = some { generation, enabled := false } →
      Effect c { c.put id (.transition { t with phase := .complete }) with
        accountCommitments :=
          c.accountCommitments.insert t.intent.principal t.intent.credentialAfter
        principalStates := c.principalStates.insert t.intent.principal
          { generation, enabled := !t.intent.locked }
        needsPasswordAging := if t.intent.activation
          then c.needsPasswordAging.erase t.intent.principal else c.needsPasswordAging }
  | checkpointed {commitments : Table String} : c.accountCommitments.isEmpty = true →
      Effect c { c with accountCommitments := commitments }
  | advanced {p : String} {r : Principal} {generation : UInt64} {enabled : Bool}
      {adminRecovery : Option Verifier} : c.record p = some r →
      generation.toNat = (c.generationOf p r).toNat + 1 →
      (∀ id x, c.Pending id x → x.principal ≠ p) → p ∉ c.deletedPrincipals →
      (enabled = true → p ∉ c.needsPasswordAging) →
      Effect c { c with
        principalStates := c.principalStates.insert p { generation, enabled }, adminRecovery }
  | adopted {r : Registry} : r.validate = .ok () → c.principalRegistry = none →
      Effect c { c with principalRegistry := some r }

/-- What a branch may leave: `false` and the same catalog, or `true` and an effect. -/
def Outcome (c : Catalog) (changed : Bool) (c' : Catalog) : Prop :=
  if changed then Effect c c' else c' = c

variable {c : Catalog} {f : ModelFormats}

/-- The tail `self.field = ..; fall through`. -/
theorem safe_write {c' : Catalog} (h : Effect c c') :
    Mut.Safe (do set c'; pure true) c (Outcome c) :=
  Mut.safe_of_exec (a := true) rfl h

/-! ## Trust records -/

theorem safe_always {m : Mut Catalog Unit} (h : Mut.Safe m c fun _ c' => Effect c c') :
    Mut.Safe (always m) c (Outcome c) :=
  Mut.safe_bind h fun _ c' he => ⟨true, c', rfl, he⟩

theorem safe_publishModelTrust (expected : UInt64) (bundle : ModelTrust) :
    Mut.Safe (publishModelTrust f expected bundle) c (Outcome c) := by
  unfold publishModelTrust
  refine Mut.safe_bind_get (Mut.safe_bind (Q := fun _ c' => ∃ t, c' = { c with modelTrust := t })
    (Mut.safe_focus (ModelState.safe_publish f expected bundle _) rfl fun _ t _ => ⟨t, rfl⟩) ?_)
  rintro _ _ ⟨t, rfl⟩
  refine ⟨_, _, rfl, ?_⟩
  -- `Ok(false)` exactly when the write changed nothing
  by_cases ht : t = c.modelTrust
  · subst ht
    simp [Outcome]
  · rw [Outcome, if_pos (by simpa using ht)]
    exact .elsewhere

theorem safe_onModelTrust {m : Mut (Option ModelState) Unit} {Q : Unit → Option ModelState → Prop}
    (h : Mut.Safe m c.modelTrust Q) : Mut.Safe (always (onModelTrust m)) c (Outcome c) :=
  safe_always (Mut.safe_focus h rfl fun _ _ _ => .elsewhere)

theorem safe_onSkillTrust {m : Mut (Option SkillState) Unit} {Q : Unit → Option SkillState → Prop}
    (h : Mut.Safe m c.skillTrust Q) : Mut.Safe (always (onSkillTrust m)) c (Outcome c) :=
  safe_always (Mut.safe_focus h rfl fun _ _ _ => .elsewhere)

theorem safe_onRelease (op : ReleaseOp) :
    Mut.Safe (always (onRelease (op.method f.toFormats))) c (Outcome c) :=
  safe_always (Mut.safe_focus (ReleaseState.safe_method op) rfl fun _ _ _ => .elsewhere)

theorem safe_recordModelCatalogApproval (request : ReleaseRequest) (approval : Approval) :
    Mut.Safe (recordModelCatalogApproval f request approval) c (Outcome c) := by
  unfold recordModelCatalogApproval
  exact Mut.safe_bind_lift fun _ _ => Mut.safe_bind_lift fun _ _ => Mut.safe_bind_lift fun _ _ =>
    Mut.safe_bind_get (Mut.safe_bind_lift fun _ _ => Mut.safe_bind_lift fun _ _ =>
    safe_write .elsewhere)

theorem safe_recordModelCatalogSigning (statement : ModelStatement) :
    Mut.Safe (recordModelCatalogSigning f statement) c (Outcome c) := by
  unfold recordModelCatalogSigning
  exact Mut.safe_bind_lift fun _ _ => Mut.safe_bind_lift fun _ _ => Mut.safe_bind_lift fun _ _ =>
    Mut.safe_bind_get (Mut.safe_bind_lift fun _ _ => Mut.safe_bind_lift fun _ _ =>
    Mut.safe_bind_lift fun _ _ => safe_write .elsewhere)

/-! ## Roles, assignments and grants -/

theorem safe_registerActivity (activity : String) :
    Mut.Safe (registerActivity activity) c (Outcome c) := by
  unfold registerActivity
  refine Mut.safe_bind_get ?_
  split
  · exact Mut.safe_pure rfl
  · exact Mut.safe_bind_lift fun _ _ => safe_write .elsewhere

theorem safe_defineRole {name : String} {activities : List String} {expectedVersion : UInt64}
    (hv : (Command.defineRole name activities expectedVersion).validate f = .ok ()) :
    Mut.Safe (defineRole name activities expectedVersion) c (Outcome c) := by
  simp only [Command.validate, refuseIf_eq_ok, Bool.not_eq_false', Bool.and_eq_true,
    Bool.not_eq_true', List.isEmpty_eq_false_iff, decide_eq_true_eq, List.all_eq_true,
    Command.validActivity] at hv
  obtain ⟨⟨⟨⟨-, hne⟩, hlen⟩, hall⟩, -⟩ := hv
  unfold defineRole
  refine Mut.safe_bind_get (Mut.safe_bind_lift fun _ _ => ?_)
  dsimp only
  refine Mut.safe_bind_lift fun _ hver => ?_
  split
  · exact Mut.safe_pure rfl
  · refine Mut.safe_bind_lift fun _ _ => Mut.safe_bind_lift fun version hnext =>
      safe_write (.roleDefined (r := { name, activities, version }) ?_ fun old hold => ?_)
    · have hadd := u64Add_eq_some.mp (okOr_eq_ok.mp hnext)
      refine ⟨fun h0 => ?_, ⟨hne, hlen⟩, fun v hmem => (hall v hmem).1⟩
      rw [show version = 0 from h0] at hadd
      cases hadd
    rw [refuseIf_eq_ok, bne_eq_false_iff_eq, hold] at hver
    have hadd := u64Add_eq_some.mp (okOr_eq_ok.mp hnext)
    rw [← hver] at hadd
    rw [UInt64.lt_iff_toNat_lt, hadd]
    simp

theorem safe_assignRole {a : Assignment} (hv : a.validate = .ok ()) :
    Mut.Safe (assignRole a) c (Outcome c) := by
  unfold assignRole
  refine Mut.safe_bind_get (Mut.safe_bind_lift fun _ _ => Mut.safe_bind_lift fun _ _ =>
    Mut.safe_bind_lift fun _ _ => Mut.safe_bind_lift fun _ hguard => safe_write (.assigned hv ?_))
  simp only [refuseIf_eq_ok, Bool.or_eq_false_iff] at hguard
  obtain ⟨⟨-, hid⟩, -⟩ := hguard
  rwa [Std.ExtTreeMap.contains_eq_isSome_getElem?, Option.isSome_eq_false_iff,
    Option.isNone_iff_eq_none] at hid

theorem safe_revokeAssignment (id : String) (expectedVersion : UInt64) :
    Mut.Safe (revokeAssignment id expectedVersion) c (Outcome c) := by
  unfold revokeAssignment
  exact Mut.safe_bind_get (Mut.safe_bind_lift fun _ ha => Mut.safe_bind_lift fun _ _ =>
    Mut.safe_bind_lift fun _ hnext => safe_write (.assignmentRevoked (okOr_eq_ok.mp ha)
    (u64Add_eq_some.mp (okOr_eq_ok.mp hnext))))

theorem safe_issueGrant (g : Grant) : Mut.Safe (issueGrant g) c (Outcome c) := by
  unfold issueGrant
  refine Mut.safe_bind_get (Mut.safe_bind_lift fun _ hissue => Mut.safe_bind_lift fun _ hguard =>
    safe_write (.issued hissue ?_))
  simp only [refuseIf_eq_ok, Bool.or_eq_false_iff] at hguard
  obtain ⟨hid, -⟩ := hguard
  rwa [Std.ExtTreeMap.contains_eq_isSome_getElem?, Option.isSome_eq_false_iff,
    Option.isNone_iff_eq_none] at hid

theorem safe_revokeGrant (id : String) (expectedVersion : UInt64) :
    Mut.Safe (revokeGrant id expectedVersion) c (Outcome c) := by
  unfold revokeGrant
  exact Mut.safe_bind_get (Mut.safe_bind_lift fun _ hg => Mut.safe_bind_lift fun _ _ =>
    Mut.safe_bind_lift fun _ hnext => safe_write (.grantRevoked (okOr_eq_ok.mp hg)
    (u64Add_eq_some.mp (okOr_eq_ok.mp hnext))))

/-! ## Account creations -/

/-- A name that no family of transactions uses. -/
theorem not_holds {id : String} (hcre : c.accountCreations.contains id = false)
    (hdel : c.accountDeletions.contains id = false)
    (htra : c.accountTransitions.contains id = false) (y : Transaction) : ¬ c.Holds id y := by
  rw [Std.ExtTreeMap.contains_eq_isSome_getElem?, Option.isSome_eq_false_iff,
    Option.isNone_iff_eq_none] at hcre hdel htra
  intro h
  cases y with
  | creation t => exact Option.some_ne_none _ (h.symm.trans hcre)
  | deletion t => exact Option.some_ne_none _ (h.symm.trans hdel)
  | transition t => exact Option.some_ne_none _ (h.symm.trans htra)

theorem safe_prepareAccountCreation {intent : CreationIntent} (hi : intent.validate = .ok ()) :
    Mut.Safe (prepareAccountCreation intent) c (Outcome c) := by
  unfold prepareAccountCreation
  refine Mut.safe_bind_get (Mut.safe_bind_lift fun r hr => Mut.safe_bind_lift fun _ hguard =>
    safe_write (.prepared (x := .creation { intent, phase := .prepared }) ?_ ?_ (fun _ h => h) ?_))
  all_goals simp only [refuseIf_eq_ok, Bool.or_eq_false_iff, bne_eq_false_iff_eq] at hguard
  · obtain ⟨⟨⟨-, hc⟩, hd⟩, ht⟩ := hguard
    exact quiet_of_flags hc hd ht
  · obtain ⟨⟨⟨⟨⟨⟨⟨⟨⟨⟨rfl, -⟩, hstate⟩, -⟩, -⟩, -⟩, -⟩, -⟩, -⟩, -⟩, -⟩ := hguard
    rw [Std.ExtTreeMap.contains_eq_isSome_getElem?, Option.isSome_eq_false_iff,
      Option.isNone_iff_eq_none] at hstate
    exact ⟨rfl, hstate, okOr_eq_ok.mp hr, CreationIntent.appended hi⟩
  · obtain ⟨⟨⟨⟨⟨⟨⟨-, hcre⟩, hdel⟩, htra⟩, -⟩, -⟩, -⟩, -⟩ := hguard
    exact not_holds hcre hdel htra

theorem safe_permitAccountCreation (transaction : String) :
    Mut.Safe (permitAccountCreation transaction) c (Outcome c) := by
  unfold permitAccountCreation
  refine Mut.safe_bind_get (Mut.safe_bind_lift fun t ht => Mut.safe_bind_lift fun _ hphase =>
    safe_write (.permitted (x := .creation t) ⟨okOr_eq_ok.mp ht, ?_⟩))
  exact Phase.ne_complete (refuseIf_eq_ok.mp hphase) Phase.noConfusion

theorem safe_completeAccountCreation (transaction : String) :
    Mut.Safe (completeAccountCreation transaction) c (Outcome c) := by
  unfold completeAccountCreation
  refine Mut.safe_bind_get (Mut.safe_bind_lift fun t ht => Mut.safe_bind_lift fun _ hphase =>
    Mut.safe_bind_lift fun r hr => Mut.safe_bind_lift fun _ hguard =>
    safe_write (.creationCompleted ⟨okOr_eq_ok.mp ht, ?_⟩ ?_))
  · exact Phase.ne_complete (refuseIf_eq_ok.mp hphase) Phase.noConfusion
  · simp only [refuseIf_eq_ok, Bool.or_eq_false_iff, bne_eq_false_iff_eq] at hguard
    exact hguard.1 ▸ okOr_eq_ok.mp hr

/-! ## Account deletions -/

/-- The record of a guarded lookup. -/
theorem record_of_filter {r : Registry} {p : String} {q : Principal} {g : Principal → Bool}
    {message message' : String} (hr : okOr c.installed message = .ok r)
    (hq : okOr ((r.principal p).filter g) message' = .ok q) : c.record p = some q ∧ g q = true := by
  obtain ⟨hfind, hg⟩ := Option.filter_eq_some_iff.mp (okOr_eq_ok.mp hq)
  exact ⟨by rw [record, okOr_eq_ok.mp hr, Option.bind_some, hfind], hg⟩

theorem safe_prepareAccountDeletion {intent : DeletionIntent} (hi : intent.validate = .ok ()) :
    Mut.Safe (prepareAccountDeletion intent) c (Outcome c) := by
  unfold prepareAccountDeletion
  refine Mut.safe_bind_get (Mut.safe_bind_lift fun r hr => Mut.safe_bind_lift fun q hq => ?_)
  dsimp only
  refine Mut.safe_bind_lift fun _ hguard => ?_
  simp only [refuseIf_eq_ok, Bool.or_eq_false_iff, bne_eq_false_iff_eq] at hguard
  obtain ⟨⟨⟨⟨⟨⟨⟨⟨⟨⟨-, -⟩, hgen⟩, -⟩, hdel⟩, htra⟩, -⟩, hc⟩, hcre⟩, ht⟩, hd⟩ := hguard
  have hmax := DeletionIntent.bounded hi
  -- the plain `+ 1` cannot overflow: the generation is the intent's
  obtain ⟨next, hnext, hval⟩ := u64Add_one (hgen ▸ hmax)
  have := noPanic_expect hnext overflow
  refine Mut.safe_bind_lift fun next' hnext' => ?_
  rw [expect_eq_ok, hnext] at hnext'
  cases hnext'
  exact safe_write (.prepared (x := .deletion { intent, phase := .prepared })
    (quiet_of_flags hc hd ht) ⟨hmax, q, (record_of_filter hr hq).1, hval⟩ (fun _ h => h)
    (not_holds hcre hdel htra))

theorem safe_permitAccountDeletion (transaction : String) :
    Mut.Safe (permitAccountDeletion transaction) c (Outcome c) := by
  unfold permitAccountDeletion
  refine Mut.safe_bind_get (Mut.safe_bind_lift fun t ht => Mut.safe_bind_lift fun _ hphase =>
    safe_write (.permitted (x := .deletion t) ⟨okOr_eq_ok.mp ht, ?_⟩))
  exact Phase.ne_complete (refuseIf_eq_ok.mp hphase) Phase.noConfusion

theorem safe_completeAccountDeletion (hc : c.Fenced) (transaction : String) :
    Mut.Safe (completeAccountDeletion transaction) c (Outcome c) := by
  unfold completeAccountDeletion
  refine Mut.safe_bind_get (Mut.safe_bind_lift fun t ht => ?_)
  dsimp only
  refine Mut.safe_bind_lift fun _ hphase => ?_
  rw [refuseIf_eq_ok, Bool.or_eq_false_iff] at hphase
  have hpending : c.Pending transaction (.deletion t) :=
    ⟨okOr_eq_ok.mp ht, Phase.ne_complete hphase.1 Phase.noConfusion⟩
  obtain ⟨next, hnext, -⟩ := u64Add_one (hc.supported hpending)
  have := noPanic_expect hnext overflow
  exact Mut.safe_bind_lift fun _ _ => Mut.safe_bind_lift fun _ _ =>
    safe_write (.deletionCompleted hpending)

/-! ## Credential transitions -/

/-- The aging guard of a preparation, read back. Under custody the principal is the original Admin,
who is never aging. -/
theorem transitionOk_of_guards (hc : c.Fenced) {intent : TransitionIntent} {q : Principal}
    {custody : Bool} {phase : Phase} (hmax : intent.expectedGeneration ≠ u64Max)
    (hq : c.record intent.principal = some q) (huid : ((q.uid == 1001) == custody) = true)
    (haging : (!custody && intent.activation != c.needsPasswordAging.contains intent.principal &&
      (intent.activation || !intent.locked)) = false)
    (hrec : intent.adminRecovery = custody)
    (hdel : c.deletedPrincipals.contains intent.principal = false) :
    c.Supported (.transition { intent, phase }) := by
  have hlive : intent.principal ∉ c.deletedPrincipals := by
    rw [← Std.ExtTreeSet.contains_iff_mem, hdel]
    exact Bool.noConfusion
  cases custody with
  | true =>
    have hact := TransitionIntent.activation_of_adminRecovery hrec
    refine ⟨hlive, hmax, fun h => absurd h (by simp [hact]), fun hp => ?_⟩
    obtain ⟨r, hr, huid'⟩ := hc.agingRecord hp
    rw [hq] at hr
    cases hr
    exact absurd (by simpa using huid) huid'
  | false =>
    refine ⟨hlive, hmax, fun h => ?_, fun hp => ?_⟩
    · rw [← Std.ExtTreeSet.contains_iff_mem]
      simpa [show intent.activation = true from h] using haging
    · rw [← Std.ExtTreeSet.contains_iff_mem] at hp
      simp only at hp
      rw [hp] at haging
      revert haging
      cases intent.activation <;> cases intent.locked <;> simp

theorem safe_prepareTransition (hc : c.Fenced) {intent : TransitionIntent}
    (hi : intent.validate f.sha256 = .ok ()) (custody : Option (String × UInt64 × Verifier)) :
    Mut.Safe (prepareTransition intent custody) c (Outcome c) := by
  unfold prepareTransition
  refine Mut.safe_bind_get (Mut.safe_bind_lift fun r hr => Mut.safe_bind_lift fun q hq => ?_)
  dsimp only
  refine Mut.safe_bind_lift fun _ _ => Mut.safe_bind_lift fun _ hguard => ?_
  obtain ⟨hrecord, hq⟩ := record_of_filter hr hq
  rw [Bool.and_eq_true] at hq
  rw [refuseIf_eq_ok, show custody.isNone = !custody.isSome by cases custody <;> rfl] at hguard
  simp only [Bool.or_eq_false_iff, bne_eq_false_iff_eq] at hguard
  obtain ⟨⟨⟨⟨⟨⟨⟨⟨⟨⟨⟨⟨-, haging⟩, hrec⟩, hdel⟩, hgen⟩, -⟩, htras⟩, hdels⟩, -⟩, hcre⟩, hcres⟩, hd⟩,
    ht⟩ := hguard
  have hfresh := not_holds hcres hdels htras
  have hok : c.Supported (.transition { intent, phase := .prepared }) :=
    transitionOk_of_guards hc (TransitionIntent.bounded hi) hrecord hq.2 haging hrec hdel
  have hquiet := quiet_of_flags hcre hd ht
  -- the increment after the custody writes cannot fail
  obtain ⟨next, hnext, hval⟩ := u64Add_one (hgen ▸ TransitionIntent.bounded hi)
  rw [hnext]
  cases custody with
  | none =>
    exact Mut.safe_of_exec (a := true) rfl (Effect.prepared
      (x := .transition { intent, phase := .prepared }) hquiet ⟨hok, q, hrecord, hval⟩
      (fun _ h => h) hfresh)
  | some x =>
    refine Mut.safe_bind_lift fun _ _ => Mut.safe_bind_lift fun _ _ => Mut.safe_bind_lift fun _ _ =>
      Mut.safe_of_exec (a := true) rfl (Effect.prepared
        (x := .transition { intent, phase := .prepared }) hquiet ⟨hok, q, hrecord, hval⟩
        (fun p h => ?_) hfresh)
    exact Std.ExtTreeMap.mem_insert.mpr (Or.inr h)

theorem safe_permitTransition (transaction : String) (custody : Bool) :
    Mut.Safe (permitTransition transaction custody) c (Outcome c) := by
  unfold permitTransition
  refine Mut.safe_bind_get (Mut.safe_bind_lift fun t ht => Mut.safe_bind_lift fun _ hphase =>
    safe_write (.permitted (x := .transition t) ⟨okOr_eq_ok.mp ht, ?_⟩))
  rw [refuseIf_eq_ok, Bool.or_eq_false_iff] at hphase
  exact Phase.ne_complete hphase.1 Phase.noConfusion

theorem safe_completeTransition (hc : c.Fenced) (transaction : String) (custody : Bool) :
    Mut.Safe (completeTransition transaction custody) c (Outcome c) := by
  unfold completeTransition
  refine Mut.safe_bind_get (Mut.safe_bind_lift fun t ht => ?_)
  dsimp only
  refine Mut.safe_bind_lift fun _ hphase => ?_
  simp only [refuseIf_eq_ok, Bool.or_eq_false_iff] at hphase
  have hpending : c.Pending transaction (.transition t) :=
    ⟨okOr_eq_ok.mp ht, Phase.ne_complete hphase.1.1 Phase.noConfusion⟩
  have hok := hc.supported hpending
  obtain ⟨next, hnext, -⟩ := u64Add_one hok.bounded
  have := noPanic_expect hnext overflow
  refine Mut.safe_bind_lift fun generation _ => Mut.safe_bind_lift fun _ hstate => ?_
  rw [refuseIf_eq_ok, bne_eq_false_iff_eq] at hstate
  have heffect := Effect.transitionCompleted hpending hstate
  cases hact : t.intent.activation with
  | false =>
    rw [hact] at heffect
    exact Mut.safe_of_exec (a := true) rfl heffect
  | true =>
    -- the aging fence is still there, so the check after the writes passes
    rw [hact] at heffect
    have hfence : c.needsPasswordAging.contains t.intent.principal = true :=
      Std.ExtTreeSet.contains_iff_mem.mpr (hok.activates hact)
    refine Mut.safe_of_exec (a := true) ?_ heffect
    rw [if_pos rfl, Mut.exec_bind_modify, Mut.exec_bind_get, Mut.exec_bind_modify]
    simp only [hfence]
    rfl

/-! ## Principals -/

theorem safe_checkpointAccounts (commitments : Table String) :
    Mut.Safe (checkpointAccounts commitments) c (Outcome c) := by
  unfold checkpointAccounts
  refine Mut.safe_bind_get (Mut.safe_bind_lift fun _ _ => ?_)
  dsimp only
  refine Mut.safe_bind_lift fun _ _ => ?_
  split
  · rename_i hempty
    exact safe_write (.checkpointed hempty)
  · split
    · exact Mut.safe_pure rfl
    · exact Mut.safe_lift fun _ h => absurd h refuse_ne_ok

/-- The next generation of the original Admin. Not being disabled, the Admin is not fenced. -/
theorem adminAdvanced (hc : c.Fenced) {message : String} {ra : Registry × Principal}
    {generation : UInt64} {adminRecovery : Option Verifier}
    (hadmin : c.originalAdmin message = .ok ra) (hdis : c.disabled ra.2.id = false)
    (hnext : u64Add (c.generationOf ra.2.id ra.2) 1 = some generation) :
    Effect c { c with
      principalStates := c.principalStates.insert ra.2.id { generation, enabled := true }
      adminRecovery } := by
  simp only [originalAdmin, bind_eq_ok, okOr_eq_ok, pure_eq_ok] at hadmin
  obtain ⟨r, hr, a, ha, rfl⟩ := hadmin
  have hmem := List.mem_of_find?_eq_some (Option.filter_eq_some_iff.mp ha).1
  have hlive := not_disabled hdis
  exact .advanced (hc.record_of_adopted hr hmem) (u64Add_eq_some.mp hnext)
    (fun id x hx heq => hlive (heq ▸ hc.pending hx)) (fun h => hlive (hc.deleted h))
    (fun _ h => hlive (hc.aging h))

theorem safe_recoverAdmin (hc : c.Fenced) (expectedGeneration expectedRecovery : UInt64)
    (replacement : Verifier) :
    Mut.Safe (recoverAdmin expectedGeneration expectedRecovery replacement) c (Outcome c) := by
  unfold recoverAdmin
  refine Mut.safe_bind_get (Mut.safe_bind_lift fun ra hra => Mut.safe_bind_lift fun _ _ =>
    Mut.safe_bind_lift fun _ _ => Mut.safe_bind_lift fun _ _ => Mut.safe_bind_lift fun _ _ =>
    Mut.safe_bind_lift fun _ hdis => ?_)
  dsimp only
  refine Mut.safe_bind_lift fun _ _ => Mut.safe_bind_lift fun _ hnext => ?_
  exact safe_write (adminAdvanced hc hra (refuseIf_eq_ok.mp hdis) (okOr_eq_ok.mp hnext))

theorem safe_rotateAdmin (hc : c.Fenced) (expectedGeneration : UInt64) :
    Mut.Safe (rotateAdmin expectedGeneration) c (Outcome c) := by
  unfold rotateAdmin
  refine Mut.safe_bind_get (Mut.safe_bind_lift fun ra hra => Mut.safe_bind_lift fun _ hdis => ?_)
  dsimp only
  refine Mut.safe_bind_lift fun _ _ => Mut.safe_bind_lift fun _ hnext => ?_
  exact safe_write (adminAdvanced hc hra (refuseIf_eq_ok.mp hdis) (okOr_eq_ok.mp hnext))

theorem safe_advancePrincipal (p : String) (expectedGeneration : UInt64) (enabled : Bool) :
    Mut.Safe (advancePrincipal p expectedGeneration enabled) c (Outcome c) := by
  unfold advancePrincipal
  refine Mut.safe_bind_get (Mut.safe_bind_lift fun _ hguard => Mut.safe_bind_lift fun r hr =>
    Mut.safe_bind_lift fun q hq => Mut.safe_bind_lift fun _ _ => ?_)
  dsimp only
  refine Mut.safe_bind_lift fun _ _ => Mut.safe_bind_lift fun _ hnext => safe_write (.advanced
    (r := q) ?_ (u64Add_eq_some.mp (okOr_eq_ok.mp hnext)) ?_ ?_ ?_)
  all_goals simp only [refuseIf_eq_ok, Bool.or_eq_false_iff, List.any_eq_false, Bool.and_eq_true,
    beq_iff_eq, bne_iff_ne, ne_eq, not_and, not_not] at hguard
  · rw [record, okOr_eq_ok.mp hr, Option.bind_some, okOr_eq_ok.mp hq]
  · obtain ⟨⟨⟨-, hcre⟩, hdel⟩, htra⟩ := hguard
    rintro id x ⟨hx, hphase⟩ rfl
    cases x with
    | creation t => exact hphase (hcre (id, t) (Table.mem_toList_iff_get.mpr hx) rfl)
    | deletion t => exact hphase (hdel (id, t) (Table.mem_toList_iff_get.mpr hx) rfl)
    | transition t => exact hphase (htra (id, t) (Table.mem_toList_iff_get.mpr hx) rfl)
  · rw [← Std.ExtTreeSet.contains_iff_mem, hguard.1.1.1.1]
    exact Bool.noConfusion
  · rintro rfl
    rw [← Std.ExtTreeSet.contains_iff_mem, Bool.not_eq_true]
    simpa using hguard.1.1.1.2

theorem safe_adoptPrincipals {r : Registry} (hr : r.validate = .ok ()) :
    Mut.Safe (adoptPrincipals r) c (Outcome c) := by
  unfold adoptPrincipals
  refine Mut.safe_bind_get ?_
  split
  · split
    · exact Mut.safe_pure rfl
    · exact Mut.safe_lift fun _ h => absurd h refuse_ne_ok
  · rename_i hnone
    exact safe_write (.adopted hr hnone)

/-! ## All branches -/

/-- **Every branch, on a fenced catalog.** -/
theorem safe_branch (hc : c.Fenced) {command : Command} (hv : command.validate f = .ok ()) :
    Mut.Safe (branch f command) c (Outcome c) := by
  cases command with
  | publishModelTrust expected bundle => exact safe_publishModelTrust expected bundle
  | admitModelCatalog expected a =>
    exact safe_onModelTrust (ModelState.safe_admitCatalog f expected a _)
  | recordModelCatalogApproval request a => exact safe_recordModelCatalogApproval request a
  | recordModelCatalogSigning statement => exact safe_recordModelCatalogSigning statement
  | publishSkillTrust expected bundle =>
    exact safe_onSkillTrust (SkillState.safe_publish f.sha256 expected bundle _)
  | admitSkillRegistry expected a =>
    exact safe_onSkillTrust (SkillState.safe_admitRegistry f.sha256 expected a _)
  | publishReleaseTrust expected bundle => exact safe_onRelease (.publish expected bundle)
  | prepareRelease expected a => exact safe_onRelease (.prepare expected a)
  | initializeRelease release => exact safe_onRelease (.initializeRelease release)
  | resolveRelease digest outcome => exact safe_onRelease (.resolve digest outcome)
  | registerActivity activity => exact safe_registerActivity activity
  | defineRole name activities expected => exact safe_defineRole hv
  | assignRole a => exact safe_assignRole hv
  | revokeAssignment id expected => exact safe_revokeAssignment id expected
  | issueGrant g => exact safe_issueGrant g
  | revokeGrant id expected => exact safe_revokeGrant id expected
  | adoptPrincipals r => exact safe_adoptPrincipals hv
  | checkpointAccounts commitments => exact safe_checkpointAccounts commitments
  | prepareAccountLock intent => exact safe_prepareTransition hc hv none
  | prepareAccountDeletion intent => exact safe_prepareAccountDeletion hv
  | prepareAccountCreation intent => exact safe_prepareAccountCreation hv
  | permitAccountCreation id => exact safe_permitAccountCreation id
  | completeAccountCreation id => exact safe_completeAccountCreation id
  | permitAccountDeletion id => exact safe_permitAccountDeletion id
  | completeAccountDeletion id => exact safe_completeAccountDeletion hc id
  | permitAccountPublication id => exact safe_permitTransition id false
  | completeAccountLock id => exact safe_completeTransition hc id false
  | advancePrincipal p expected enabled => exact safe_advancePrincipal p expected enabled
  | rotateAdmin expected => exact safe_rotateAdmin hc expected
  | recoverAdmin expected recovery replacement =>
    exact safe_recoverAdmin hc expected recovery replacement
  | prepareAdminAccountRecovery intent credential recovery replacement =>
    simp only [Command.validate, bind_eq_ok] at hv
    obtain ⟨_, hi, -⟩ := hv
    exact safe_prepareTransition hc hi _
  | permitAdminAccountRecovery id => exact safe_permitTransition id true
  | completeAdminAccountRecovery id => exact safe_completeTransition hc id true

/-- **`Catalog::apply` on a fenced catalog**: `Ok(false)` and a refusal leave the catalog,
`Ok(true)` is one effect and one version. -/
theorem safe_apply (hc : c.Fenced) (command : Command) :
    Mut.Safe (apply f command) c fun changed c' => if changed then
      ∃ d next, Effect c d ∧ c' = { d with stateVersion := next } ∧
        next.toNat = c.stateVersion.toNat + 1 else c' = c := by
  unfold apply
  refine Mut.safe_bind_lift fun _ hv => Mut.safe_bind_get (Mut.safe_bind_lift fun next hnext =>
    Mut.safe_bind (safe_branch hc hv) fun changed c' hout => ?_)
  cases changed with
  | false => exact ⟨false, c', rfl, hout⟩
  | true =>
    exact ⟨true, _, rfl, c', next, hout, rfl, u64Add_eq_some.mp (okOr_eq_ok.mp hnext)⟩

end Catalog

end LumaOS.Governance
