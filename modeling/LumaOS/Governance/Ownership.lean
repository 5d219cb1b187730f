import LumaOS.Governance.Authorization
import LumaOS.Json.Injective

/-!
# Who may recover the work of another owner

`Registry::identity` and `account` (`principal.rs`), `Catalog::resolve_principal`
(`admin_roles.rs:1215-1233`), `history_owner` and `workflow_recovery_owner`
(`admin_governance.rs:1877-1973`).

Both checks accept another owner only at a generation that the governed one has passed
(`historyOwner_eq_ok`, `workflowRecoveryOwner_eq_ok`). Governed generations only grow
(`run_governed`), so the owner that the work belonged to is never current again. That a deletion is
complete is not taken back either: a transaction that is complete is never written over
(`Effect.completed`).
-/

namespace LumaOS.Governance

open LumaOS.Base LumaOS.Text LumaOS.Json

/-- `a == b` of values. -/
def sameValue (a b : Value) : Bool := text a == text b

theorem sameValue_iff {a b : Value} : sameValue a b = true ↔ a = b := by
  rw [sameValue, beq_iff_eq, text_injective.eq_iff]

namespace Registry

/-- `Registry::identity`. -/
def identity (r : Registry) (record : Principal) : Value :=
  .object [("generation", .number record.generation.toNat),
    ("installation", .string r.installation), ("login", .string record.login),
    ("principal", .string record.id), ("uid", .number record.uid)]

/-- `Registry::account`. -/
def account (r : Registry) (name : String) : Option Principal :=
  r.principals.find? fun p => p.login == name

theorem identity_principal (r : Registry) (record : Principal) :
    ((r.identity record).get "principal").asStr = some record.id := rfl

theorem identity_generation (r : Registry) (record : Principal) :
    ((r.identity record).get "generation").asU64 = some record.generation := by
  have hget : (r.identity record).get "generation" = .number record.generation.toNat := rfl
  have hlt : (record.generation.toNat : Int) < 2 ^ 64 := by
    exact_mod_cast record.generation.toNat_lt
  rw [hget, Value.asU64, if_pos ⟨Int.natCast_nonneg _, hlt⟩, Int.toNat_natCast,
    UInt64.ofNat_toNat]

end Registry

namespace Catalog

/-- The record as the state entry of its principal has it. -/
def current (c : Catalog) (record : Principal) : Principal :=
  match c.principalStates[record.id]? with
  | none => record
  | some s => { record with generation := s.generation, enabled := s.enabled }

/-- `Catalog::resolve_principal`. -/
def resolvePrincipal (c : Catalog) (baseline : Value) : Result Value := do
  let registry ← c.registry
  let name ← okOr (baseline.get "login").asStr "missing local principal login"
  let record ← okOr (registry.account name) "unknown adopted account"
  refuseIf (!record.enabled || !sameValue (registry.identity record) baseline)
    "local identity does not match adopted installation baseline"
  refuseIf (!(c.current record).enabled) "governed principal is disabled"
  pure (registry.identity (c.current record))

/-- A completed deletion of the principal behind the generation. -/
def retires (c : Catalog) (principal : String) (generation : UInt64) (d : Deletion) :
    Result Bool :=
  if d.intent.principal == principal && generation ≤ d.intent.expectedGeneration &&
      d.phase == .complete then
    match c.principalStates[principal]? with
    | none => pure false
    | some s =>
      if s.enabled then pure false
      else do
        let next ← expect (u64Add d.intent.expectedGeneration 1) overflow
        pure (s.generation == next)
  else pure false

/-- `self.account_deletions.values().any(..)`. -/
def retired (c : Catalog) (principal : String) (generation : UInt64) : Result Bool :=
  c.accountDeletions.toList.anyM fun e => c.retires principal generation e.2

def historyOwner (c : Catalog) (identity : Value) (principal : String) (generation : UInt64) :
    Result Unit := do
  refuseIf (!isHash principal || generation == 0) "invalid history owner"
  if (identity.get "principal").asStr == some principal &&
      (identity.get "generation").asU64 == some generation then pure ()
  else do
    let message := "only current owner or original Admin retiring completed deleted-account " ++
      "history is admitted"
    let registry ← c.registry
    let original ← okOr registry.bootstrapAdmin "history retirement lacks original Admin"
    refuseIf ((identity.get "principal").asStr != some original.id ||
      !c.deletedPrincipals.contains principal) message
    let retired ← c.retired principal generation
    refuseIf (!retired) message

def workflowRecoveryOwner (c : Catalog) (identity : Value) (principal : String)
    (oldGeneration : UInt64) : Result Unit := do
  refuseIf (!isHash principal || oldGeneration == 0) "invalid exact workflow recovery owner"
  let registry ← c.registry
  let id ← okOr (identity.get "principal").asStr "missing actual workflow recovery actor"
  let actor ← okOr ((registry.principal id).filter fun p => p.enabled)
    "unknown actual workflow recovery actor"
  let resolved ← c.resolvePrincipal (registry.identity actor)
  refuseIf (!sameValue resolved identity || c.deletedPrincipals.contains actor.id ||
    c.needsPasswordAging.contains actor.id)
    "workflow recovery requires actual current usable actor generation"
  let target ← okOr (registry.principal principal) "workflow recovery target is not adopted"
  let generation := c.generationOf principal target
  refuseIf (oldGeneration > generation)
    "workflow recovery cannot name a future target generation"
  if actor.id == principal then pure ()
  else do
    refuseIf (registry.bootstrapAdmin.map (fun p => p.id) != some actor.id)
      "other-owner workflow recovery requires actual original Admin"
    refuseIf (c.accountDeletions.toList.any fun e =>
      e.2.intent.principal == principal && e.2.phase != .complete)
      "complete exact account deletion before orphan workflow recovery"
    if c.deletedPrincipals.contains principal then do
      let retired ← c.retired principal oldGeneration
      refuseIf (!retired) "orphan workflow recovery lacks exact completed deletion generation"
    else do
      refuseIf (generation ≤ oldGeneration)
        "current unrelated active owner is not a recoverable orphan"

variable {c c' : Catalog} {f : ModelFormats} {baseline identity : Value} {p : String}
  {g n : UInt64}

/-! ## Identities -/

theorem generationOf_eq_current (c : Catalog) (record : Principal) :
    c.generationOf record.id record = (c.current record).generation := by
  unfold generationOf current
  cases c.principalStates[record.id]? <;> rfl

theorem current_id (c : Catalog) (record : Principal) : (c.current record).id = record.id := by
  unfold current
  split <;> rfl

/-- **What resolves** is the governed generation of a registered account. -/
theorem resolvePrincipal_eq_ok (hc : c.Fenced) (h : c.resolvePrincipal baseline = .ok identity) :
    ∃ registry record, c.installed = some registry ∧ registry.principal record.id = some record ∧
      registry.identity record = baseline ∧
      (identity.get "principal").asStr = some record.id ∧
      (identity.get "generation").asU64 = c.governed record.id := by
  simp only [resolvePrincipal, registry, bind_eq_ok, okOr_eq_ok, refuseIf_eq_ok, pure_eq_ok,
    Bool.or_eq_false_iff, Bool.not_eq_false'] at h
  obtain ⟨registry, hregistry, name, -, record, hrecord, -, ⟨-, hsame⟩, -, -, rfl⟩ := h
  have hfind : registry.principal record.id = some record :=
    Registry.principal_of_mem (Registry.nodup_ids (hc.valid hregistry))
      (List.mem_of_find?_eq_some hrecord)
  have hinstalled : c.record record.id = some record := by
    rw [Catalog.record, hregistry, Option.bind_some, hfind]
  refine ⟨registry, record, hregistry, hfind, sameValue_iff.mp hsame, ?_, ?_⟩
  · rw [Registry.identity_principal, current_id]
  · rw [Registry.identity_generation, governed_eq hinstalled, generationOf_eq_current]

/-- The identity is that of the original Admin. -/
def OriginalAdmin (c : Catalog) (identity : Value) : Prop :=
  ∃ registry original, c.installed = some registry ∧ registry.bootstrapAdmin = some original ∧
    c.resolvePrincipal (registry.identity original) = .ok identity

theorem originalAdmin_of (hc : c.Fenced) {registry : Registry} {original : Principal}
    (hregistry : c.installed = some registry) (hadmin : registry.bootstrapAdmin = some original)
    (h : c.resolvePrincipal baseline = .ok identity)
    (hp : (identity.get "principal").asStr = some original.id) : c.OriginalAdmin identity := by
  obtain ⟨registry', record, hregistry', hrecord, hbase, hid, -⟩ := resolvePrincipal_eq_ok hc h
  rw [hregistry] at hregistry'
  cases hregistry'
  rw [hp, Option.some_inj] at hid
  have horiginal : registry.principal original.id = some original :=
    Registry.principal_of_mem (Registry.nodup_ids (hc.valid hregistry))
      (List.mem_of_find?_eq_some hadmin)
  rw [← hid, horiginal, Option.some_inj] at hrecord
  exact ⟨registry, original, hregistry, hadmin, by rw [hrecord, hbase, h]⟩

/-! ## Acceptance -/

/-- The deletion of `p` is complete under the name. -/
def Completed (c : Catalog) (p id : String) : Prop :=
  ∃ d : Deletion, c.accountDeletions[id]? = some d ∧ d.intent.principal = p ∧ d.phase = .complete

theorem anyM_eq_ok {α : Type} {q : α → Result Bool} :
    ∀ {xs : List α}, xs.anyM q = .ok true → ∃ x ∈ xs, q x = .ok true
  | [], h => by cases h
  | x :: xs, h => by
    rw [List.anyM_cons, bind_eq_ok] at h
    obtain ⟨b, hx, h⟩ := h
    cases b with
    | true => exact ⟨x, List.mem_cons_self, hx⟩
    | false =>
      obtain ⟨y, hy, hq⟩ := anyM_eq_ok h
      exact ⟨y, List.mem_cons_of_mem x hy, hq⟩

/-- **A retired generation** has been passed, and the deletion is complete. -/
theorem retired_eq_ok (h : c.retired p g = .ok true) :
    (∃ id, c.Completed p id) ∧ ∃ n, c.governed p = some n ∧ g < n := by
  obtain ⟨⟨id, d⟩, hmem, h⟩ := anyM_eq_ok h
  unfold retires at h
  split at h
  · rename_i hd
    simp only [Bool.and_eq_true, beq_iff_eq, decide_eq_true_eq] at hd
    obtain ⟨⟨hprincipal, hle⟩, hphase⟩ := hd
    cases hs : c.principalStates[p]? with
    | none =>
      rw [hs] at h
      cases h
    | some s =>
      rw [hs] at h
      dsimp only at h
      cases hen : s.enabled with
      | true =>
        rw [hen] at h
        cases h
      | false =>
        rw [hen, if_neg Bool.false_ne_true] at h
        simp only [bind_eq_ok, expect_eq_ok, pure_eq_ok, beq_iff_eq] at h
        obtain ⟨next, hnext, hgen⟩ := h
        refine ⟨⟨id, d, Table.mem_toList_iff_get.mp hmem, hprincipal, hphase⟩, s.generation, ?_, ?_⟩
        · rw [governed, hs]
        · rw [u64Add_eq_some] at hnext
          rw [hgen, UInt64.lt_iff_toNat_lt, hnext]
          exact Nat.lt_succ_of_le (UInt64.le_iff_toNat_le.mp hle)
  · cases h

theorem historyOwner_eq_ok (hp : (identity.get "principal").asStr ≠ some p)
    (h : c.historyOwner identity p g = .ok ()) :
    (∃ registry original, c.installed = some registry ∧ registry.bootstrapAdmin = some original ∧
      (identity.get "principal").asStr = some original.id) ∧
    p ∈ c.deletedPrincipals ∧ (∃ id, c.Completed p id) ∧ ∃ n, c.governed p = some n ∧ g < n := by
  simp only [historyOwner, bind_eq_ok, refuseIf_eq_ok] at h
  obtain ⟨-, -, h⟩ := h
  rw [if_neg (by simp [hp])] at h
  simp only [registry, bind_eq_ok, okOr_eq_ok, refuseIf_eq_ok, Bool.or_eq_false_iff,
    bne_eq_false_iff_eq, Bool.not_eq_false'] at h
  obtain ⟨registry, hregistry, original, hadmin, -, ⟨hid, hdeleted⟩, retired, hretired, rfl⟩ := h
  obtain ⟨hcompleted, hpast⟩ := retired_eq_ok hretired
  exact ⟨⟨registry, original, hregistry, hadmin, hid⟩,
    Std.ExtTreeSet.contains_iff_mem.mp hdeleted, hcompleted, hpast⟩

theorem workflowRecoveryOwner_eq_ok (hp : (identity.get "principal").asStr ≠ some p)
    (h : c.workflowRecoveryOwner identity p g = .ok ()) :
    (∃ registry original, c.installed = some registry ∧ registry.bootstrapAdmin = some original ∧
      (identity.get "principal").asStr = some original.id) ∧
    ∃ n, c.governed p = some n ∧ g < n := by
  simp only [workflowRecoveryOwner, registry, bind_eq_ok, okOr_eq_ok, refuseIf_eq_ok,
    Bool.or_eq_false_iff, Bool.not_eq_false'] at h
  obtain ⟨-, -, registry, hregistry, id, hid, actor, hactor, resolved, -, -, -, target, htarget,
    -, -, h⟩ := h
  obtain ⟨hactor, -⟩ := Option.filter_eq_some_iff.mp hactor
  have hactorId : actor.id = id := Registry.principal_id hactor
  rw [if_neg (by
    rw [beq_iff_eq, hactorId]
    rintro rfl
    exact hp hid)] at h
  simp only [bind_eq_ok, refuseIf_eq_ok, bne_eq_false_iff_eq] at h
  obtain ⟨-, hadmin, -, -, h⟩ := h
  obtain ⟨original, hadmin, horiginal⟩ := Option.map_eq_some_iff.mp hadmin
  refine ⟨⟨registry, original, hregistry, hadmin, by rw [hid, horiginal, hactorId]⟩, ?_⟩
  split at h
  · simp only [bind_eq_ok, refuseIf_eq_ok, Bool.not_eq_false'] at h
    obtain ⟨retired, hretired, rfl⟩ := h
    exact (retired_eq_ok hretired).2
  · rw [refuseIf_eq_ok, decide_eq_false_iff_not, UInt64.not_le] at h
    refine ⟨_, governed_eq (r := target) ?_, h⟩
    rw [Catalog.record, hregistry, Option.bind_some, htarget]

/-! ## What later catalogs keep -/

theorem holds_put_of_ne {id id' : String} {x y : Transaction} (h : c.Holds id y)
    (hne : ¬ (id' = id ∧ y.sameFamily x = true)) : (c.put id' x).Holds id y := by
  by_cases hid : id' = id
  · cases x <;> cases y
    all_goals first
      | exact h
      | exact absurd ⟨hid, rfl⟩ hne
  · cases x <;> cases y
    all_goals first
      | exact h
      | exact (Table.get_insert_ne hid).trans h

theorem eq_of_holds {id : String} {x y : Transaction} (hx : c.Holds id x) (hy : c.Holds id y)
    (hf : y.sameFamily x = true) : x = y := by
  cases x <;> cases y
  all_goals first
    | exact absurd hf Bool.false_ne_true
    | rw [Option.some_inj.mp (hx.symm.trans hy)]

/-- A pending transaction is written over, not one that is complete. -/
theorem holds_put_of_pending {id id' : String} {x x' y : Transaction} (h : c.Holds id y)
    (hy : y.phase = .complete) (hx : c.Pending id' x) (hf : x.sameFamily x' = true) :
    (c.put id' x').Holds id y := by
  refine holds_put_of_ne h ?_
  rintro ⟨rfl, hfamily⟩
  have hsame : y.sameFamily x = true := by
    cases x <;> cases x' <;> cases y <;> first
      | rfl
      | exact hfamily
      | exact hf
  exact hx.2 (eq_of_holds hx.1 h hsame ▸ hy)

/-- **What is complete stays.** -/
theorem Effect.completed {id : String} {y : Transaction} (h : Effect c c') (hy : c.Holds id y)
    (hphase : y.phase = .complete) : c'.Holds id y := by
  cases h with
  | @prepared id' x _ _ _ _ _ _ hfresh =>
    have hput : (c.put id' x).Holds id y := holds_put_of_ne hy fun hsame => by
      obtain ⟨rfl, -⟩ := hsame
      exact hfresh y hy
    cases y <;> exact hput
  | permitted hx => exact holds_put_of_pending hy hphase hx Transaction.sameFamily_withPhase
  | @creationCompleted id' t hx =>
    have hput : (c.put id' (.creation { t with phase := .complete })).Holds id y :=
      holds_put_of_pending hy hphase hx rfl
    cases y <;> exact hput
  | @deletionCompleted id' t hx =>
    have hput : (c.put id' (.deletion { t with phase := .complete })).Holds id y :=
      holds_put_of_pending hy hphase hx rfl
    cases y <;> exact hput
  | @transitionCompleted id' t _ hx =>
    have hput : (c.put id' (.transition { t with phase := .complete })).Holds id y :=
      holds_put_of_pending hy hphase hx rfl
    cases y <;> exact hput
  | _ => cases y <;> exact hy

theorem run_completed (hc : c.Fenced) (events : List Event) {id : String}
    (h : c.Completed p id) : (run f c events).Completed p id := by
  induction events generalizing c with
  | nil => exact h
  | cons e events ih =>
    refine ih (step_fenced hc e) ?_
    obtain heq | ⟨d, version, hd, heq⟩ := step_cases (f := f) hc e
    · rw [heq]
      exact h
    · obtain ⟨t, ht, hp, hphase⟩ := h
      have hkept : d.Holds id (.deletion t) := hd.completed (y := .deletion t) ht hphase
      rw [heq]
      exact ⟨t, hkept, hp, hphase⟩

theorem run_governed (hc : c.Fenced) (events : List Event) (h : c.governed p = some n) :
    ∃ n', (run f c events).governed p = some n' ∧ n ≤ n' := by
  induction events generalizing c n with
  | nil => exact ⟨n, h, UInt64.le_refl n⟩
  | cons e events ih =>
    obtain ⟨m, hm, hle⟩ := (step_grows hc e).governed h
    obtain ⟨n', hn', hle'⟩ := ih (step_fenced hc e) hm
    exact ⟨n', hn', UInt64.le_trans hle hle'⟩

/-- **A generation that has been passed** is not current again. -/
theorem passed_not_current (hc : c.Fenced) (hn : c.governed p = some n) (hlt : g < n)
    (events : List Event) :
    (∀ baseline identity, (run f c events).resolvePrincipal baseline = .ok identity →
      (identity.get "principal").asStr = some p → (identity.get "generation").asU64 ≠ some g) ∧
    (run f c events).subject p g ≠ .ok () := by
  obtain ⟨n', hn', hle⟩ := run_governed (f := f) hc events hn
  have hne : (run f c events).governed p ≠ some g := by
    rw [hn']
    rintro ⟨⟩
    exact absurd hle (UInt64.not_le.mpr hlt)
  refine ⟨fun baseline identity hres hp hg => ?_, fun hs => hne (governed_of_subject hs)⟩
  obtain ⟨_, record, -, -, -, hid, hgen⟩ := resolvePrincipal_eq_ok (run_fenced hc events) hres
  rw [hp, Option.some_inj] at hid
  rw [hg, ← hid] at hgen
  exact hne hgen.symm

/-- **Recovery never overlaps the owner's authority**: whoever resolves and is accepted for another
owner is the original Admin, and no login of the owner has that generation then or later; history is
given up only after a deletion that is complete and stays complete. -/
theorem recovery_never_overlaps (f : ModelFormats) (events more : List Event)
    (baseline identity : Value) (p : String) (g : UInt64)
    (hres : (run f initial events).resolvePrincipal baseline = .ok identity)
    (hp : (identity.get "principal").asStr ≠ some p)
    (haccept : (run f initial events).workflowRecoveryOwner identity p g = .ok () ∨
      (run f initial events).historyOwner identity p g = .ok ()) :
    (run f initial events).OriginalAdmin identity ∧
    (∀ baseline' identity',
      (run f (run f initial events) more).resolvePrincipal baseline' = .ok identity' →
      (identity'.get "principal").asStr = some p →
      (identity'.get "generation").asU64 ≠ some g) ∧
    (run f (run f initial events) more).subject p g ≠ .ok () ∧
    ((run f initial events).historyOwner identity p g = .ok () →
      ∃ id, (run f initial events).Completed p id ∧
        (run f (run f initial events) more).Completed p id ∧
        p ∈ (run f (run f initial events) more).deletedPrincipals) := by
  have hc := run_fenced (f := f) initial_fenced events
  obtain ⟨⟨registry, original, hregistry, hadmin, hid⟩, n, hn, hlt⟩ :
      (∃ registry original, (run f initial events).installed = some registry ∧
        registry.bootstrapAdmin = some original ∧
        (identity.get "principal").asStr = some original.id) ∧
      ∃ n, (run f initial events).governed p = some n ∧ g < n := by
    rcases haccept with h | h
    · exact workflowRecoveryOwner_eq_ok hp h
    · obtain ⟨hadmin, -, -, hpast⟩ := historyOwner_eq_ok hp h
      exact ⟨hadmin, hpast⟩
  obtain ⟨hlogin, hsubject⟩ := passed_not_current (f := f) hc hn hlt more
  refine ⟨originalAdmin_of hc hregistry hadmin hres hid, hlogin, hsubject, fun h => ?_⟩
  obtain ⟨-, hdeleted, ⟨id, hcompleted⟩, -⟩ := historyOwner_eq_ok hp h
  exact ⟨id, hcompleted, run_completed hc more hcompleted, run_deleted hc more hdeleted⟩

/-- The original Admin and a user. -/
def ownedRegistry : Registry :=
  ⟨1, repeatText "a1" 32, [⟨repeatText "c3" 32, 1, "admin", 1001, true⟩,
    ⟨sampleSubject, 1, "user", 1002, true⟩], none⟩

def adminIdentity : Value := ownedRegistry.identity ⟨repeatText "c3" 32, 1, "admin", 1001, true⟩

/-- The user is disabled, which raises the generation, and then enabled again. -/
def ownedEvents : List Event :=
  [.command (.adoptPrincipals ownedRegistry), .command (.advancePrincipal sampleSubject 1 false)]

/-- The Admin recovers what the user left at generation one; enabling the user does not bring that
generation back. -/
theorem recovery_of_disabled_user :
    let later := run sampleFormats (run sampleFormats initial ownedEvents)
      [.command (.advancePrincipal sampleSubject 2 true)]
    (run sampleFormats initial ownedEvents).OriginalAdmin adminIdentity ∧
    later.subject sampleSubject 1 ≠ .ok () := by
  intro later
  have hany : ((run sampleFormats initial ownedEvents).resolvePrincipal
      adminIdentity).toOption.any (fun v => sameValue v adminIdentity) = true := by
    decide +kernel
  have hresolve : (run sampleFormats initial ownedEvents).resolvePrincipal adminIdentity =
      .ok adminIdentity := by
    cases h : (run sampleFormats initial ownedEvents).resolvePrincipal adminIdentity with
    | error e =>
      rw [h] at hany
      exact absurd hany Bool.false_ne_true
    | ok v =>
      rw [h] at hany
      rw [sameValue_iff.mp hany]
  obtain ⟨hadmin, -, hsubject, -⟩ := recovery_never_overlaps sampleFormats ownedEvents
    [.command (.advancePrincipal sampleSubject 2 true)] adminIdentity adminIdentity sampleSubject 1
    hresolve (by decide +kernel) (.inl (by decide +kernel))
  exact ⟨hadmin, hsubject⟩

end Catalog

end LumaOS.Governance
