import LumaOS.Governance.Effect

/-!
# The fences hold along every run

* `Effect.fenced`: every effect keeps `Fenced`. Serialization rests on `pending_put`; the
  re-enabling write of a completed transition is safe because the guards of its preparation still
  hold (`TransitionOk`).
* `Effect.state`: what an effect does to the state entry of one principal. Only a completion writes
  an entry without raising its generation, and the entry it writes over is disabled.
* Runs of `apply` (and of the adapter's assignment receipts) from the initial catalog.

**`account_transitions_serialized`** and **`apply_atomic_versioned`** are the two results about
whole runs.
-/

namespace LumaOS.Governance

open LumaOS.Base LumaOS.Text

namespace Catalog

variable {c c' : Catalog} {p : String}

/-! ## Preservation -/

/-- A disabled principal stays disabled under a disabling write. -/
theorem Disabled.insert {s : Table PrincipalState} {q : String} {g : UInt64}
    (h : ∃ t : PrincipalState, s[p]? = some t ∧ t.enabled = false) :
    ∃ t : PrincipalState, (s.insert q { generation := g, enabled := false })[p]? = some t ∧
      t.enabled = false := by
  obtain ⟨t, ht, hen⟩ := h
  rw [Table.get_insert]
  split
  · exact ⟨_, rfl, rfl⟩
  · exact ⟨t, ht, hen⟩

/-- A write to another principal changes nothing. -/
theorem Disabled.insert_ne {s : Table PrincipalState} {q : String} {t : PrincipalState}
    (hne : q ≠ p) (h : ∃ t : PrincipalState, s[p]? = some t ∧ t.enabled = false) :
    ∃ t' : PrincipalState, (s.insert q t)[p]? = some t' ∧ t'.enabled = false := by
  rw [Table.get_insert_ne hne]
  exact h

theorem Preparable.supported {x : Transaction} {g : UInt64} (h : c.Preparable g x) :
    c.Supported x := by
  cases x with
  | creation t => exact h.2.2.2
  | deletion t => exact h.1
  | transition t => exact h.1

/-- What supports a transaction does not look at its phase. -/
theorem Supported.withPhase {x : Transaction} {phase : Phase} (h : c.Supported x) :
    c.Supported (x.withPhase phase) := by
  cases x with
  | creation t => exact h
  | deletion t => exact h
  | transition t => exact ⟨h.live, h.bounded, h.activates, h.aged⟩

/-- The only pending transaction, and its successor in the same map. -/
theorem Fenced.others (hc : c.Fenced) {id id' : String} {x y : Transaction} {phase : Phase}
    (hx : c.Pending id x) (hy : c.Pending id' y) :
    id' = id ∧ y.sameFamily (x.withPhase phase) = true := by
  obtain ⟨rfl, rfl⟩ := hc.one hy hx
  exact ⟨rfl, Transaction.sameFamily_withPhase⟩

/-- Completing the pending transaction leaves none. -/
theorem Fenced.quiet_complete (hc : c.Fenced) {id : String} {x : Transaction}
    (hx : c.Pending id x) : (c.put id (x.withPhase .complete)).Quiet := by
  intro id' y hy
  obtain ⟨-, -, hne⟩ := pending_put (fun hy' => hc.others hx hy') hy
  exact hne Transaction.phase_withPhase

/-- Without an adopted registry there is no current one. -/
theorem Fenced.current_none (hc : c.Fenced) (hnone : c.principalRegistry = none) :
    c.currentRegistry = none := by
  cases hcur : c.currentRegistry with
  | none => rfl
  | some r =>
    obtain ⟨old, hold, -⟩ := hc.adopted hcur
    rw [hnone] at hold
    cases hold

theorem mem_insert_cases {s : Names} {a : String} (h : p ∈ s.insert a) : p = a ∨ p ∈ s := by
  rcases Std.ExtTreeSet.mem_insert.mp h with h | h
  · exact Or.inl (Std.compare_eq_iff_eq.mp h).symm
  · exact Or.inr h

/-- The aging set after a completion. -/
theorem mem_of_mem_aged {s : Names} {a : String} {activation : Bool}
    (h : p ∈ (if activation then s.erase a else s)) : p ∈ s ∧ (activation = true → p ≠ a) := by
  cases activation with
  | false => exact ⟨h, fun hf => Bool.noConfusion hf⟩
  | true =>
    obtain ⟨hne, hmem⟩ := Std.ExtTreeSet.mem_erase.mp h
    exact ⟨hmem, fun _ he => hne (Std.compare_eq_iff_eq.mpr he.symm)⟩

/-- The record of an installed principal survives every effect. -/
theorem Effect.record (hc : c.Fenced) (h : Effect c c') {r : Principal}
    (hr : c.record p = some r) : c'.record p = some r := by
  cases h with
  | creationCompleted hpending hinstalled =>
    rw [Catalog.record, hinstalled] at hr
    exact (Registry.appendAccount_cases (hc.supported hpending)).2.2.2.2.2.2 p r hr
  | adopted _ hnone =>
    rw [Catalog.record, installed, hc.current_none hnone, hnone] at hr
    cases hr
  | _ => exact hr

theorem Effect.fenced (hc : c.Fenced) (h : Effect c c') : c'.Fenced := by
  cases h with
  | elsewhere | roleDefined | assigned | assignmentRevoked | issued | grantRevoked
  | checkpointed =>
    exact ⟨hc.one, hc.pending, hc.deleted, hc.aging, hc.supported, hc.valid, hc.adopted,
      hc.agingRecord⟩
  | @prepared id x generation _ _ hquiet hprep =>
    have honly : ∀ {id' y}, (c.put id x).Pending id' y → id' = id ∧ y = x := fun hy => by
      obtain ⟨h1, h2, -⟩ := pending_put (fun hy' => absurd hy' (hquiet _ _)) hy
      exact ⟨h1, h2⟩
    refine ⟨fun hx hy => ?_, fun hx => ?_, fun hp => Disabled.insert (hc.deleted hp),
      fun hp => Disabled.insert (hc.aging hp), fun hx => ?_, hc.valid, hc.adopted, hc.agingRecord⟩
    · obtain ⟨rfl, rfl⟩ := honly hx
      obtain ⟨rfl, rfl⟩ := honly hy
      exact ⟨rfl, rfl⟩
    · obtain ⟨rfl, rfl⟩ := honly hx
      exact ⟨_, Table.get_insert_self, rfl⟩
    · obtain ⟨rfl, rfl⟩ := honly hx
      exact hprep.supported
  | @permitted id x hx =>
    have honly : ∀ {id' y}, (c.put id (x.withPhase .publicationPermitted)).Pending id' y →
        id' = id ∧ y = x.withPhase .publicationPermitted := fun hy => by
      obtain ⟨h1, h2, -⟩ := pending_put (fun hy' => hc.others hx hy') hy
      exact ⟨h1, h2⟩
    refine ⟨fun hx hy => ?_, fun hy => ?_, hc.deleted, hc.aging, fun hy => ?_, hc.valid,
      hc.adopted, hc.agingRecord⟩
    · obtain ⟨rfl, rfl⟩ := honly hx
      obtain ⟨rfl, rfl⟩ := honly hy
      exact ⟨rfl, rfl⟩
    · obtain ⟨rfl, rfl⟩ := honly hy
      rw [Transaction.principal_withPhase]
      exact hc.pending hx
    · obtain ⟨rfl, rfl⟩ := honly hy
      exact Supported.withPhase (hc.supported hx)
  | @creationCompleted id t hx hinstalled =>
    have hquiet := hc.quiet_complete hx
    obtain ⟨-, huid, hvalid, hps, -, hnew, hold⟩ := Registry.appendAccount_cases (hc.supported hx)
    refine ⟨fun hy => absurd hy (hquiet _ _), fun hy => absurd hy (hquiet _ _), hc.deleted,
      fun hp => ?_, fun hy => absurd hy (hquiet _ _), ?_, ?_, fun hp => ?_⟩
    · rcases mem_insert_cases hp with rfl | hp
      · exact hc.pending hx
      · exact hc.aging hp
    · rintro r ⟨⟩
      exact hvalid
    · rintro r ⟨⟩
      cases hcur : c.currentRegistry with
      | none =>
        rw [installed, hcur] at hinstalled
        exact ⟨_, hinstalled, fun a ha => hps ▸ List.mem_append_left _ ha⟩
      | some r =>
        rw [installed, hcur] at hinstalled
        obtain ⟨old, hadopted, hsub⟩ := hc.adopted hcur
        cases hinstalled
        exact ⟨old, hadopted, fun a ha => hps ▸ List.mem_append_left _ (hsub ha)⟩
    · rcases mem_insert_cases hp with rfl | hp
      · exact ⟨_, hnew, huid⟩
      · obtain ⟨r, hr, hne⟩ := hc.agingRecord hp
        rw [Catalog.record, hinstalled] at hr
        exact ⟨r, hold _ r hr, hne⟩
  | @deletionCompleted id t hx =>
    have hquiet := hc.quiet_complete hx
    refine ⟨fun hy => absurd hy (hquiet _ _), fun hy => absurd hy (hquiet _ _), fun hp => ?_,
      hc.aging, fun hy => absurd hy (hquiet _ _), hc.valid, hc.adopted, hc.agingRecord⟩
    rcases mem_insert_cases hp with rfl | hp
    · exact hc.pending hx
    · exact hc.deleted hp
  | @transitionCompleted id t generation hx hstate =>
    have hquiet := hc.quiet_complete hx
    have hok := hc.supported hx
    refine ⟨fun hy => absurd hy (hquiet _ _), fun hy => absurd hy (hquiet _ _), fun {q} hq => ?_,
      fun {q} hq => ?_, fun hy => absurd hy (hquiet _ _), hc.valid, hc.adopted, fun {q} hq => ?_⟩
    · by_cases hne : t.intent.principal = q
      · exact absurd (hne ▸ hq) hok.live
      · exact Disabled.insert_ne hne (hc.deleted hq)
    · -- an aging principal is completed locked, or leaves the aging set
      obtain ⟨hmem, herased⟩ := mem_of_mem_aged hq
      by_cases hne : t.intent.principal = q
      · rcases hok.aged (hne ▸ hmem) with hact | hlocked
        · exact absurd hne.symm (herased hact)
        · subst hne
          refine ⟨_, Table.get_insert_self, ?_⟩
          simp [hlocked]
      · exact Disabled.insert_ne hne (hc.aging (mem_of_mem_aged hq).1)
    · exact hc.agingRecord (mem_of_mem_aged hq).1
  | @advanced q r generation enabled _ hr hgen hpending hdeleted haging =>
    refine ⟨hc.one, fun hx => ?_, fun {p} hp => ?_, fun {p} hp => ?_, hc.supported, hc.valid,
      hc.adopted, hc.agingRecord⟩
    · exact Disabled.insert_ne (fun he => hpending _ _ hx he.symm) (hc.pending hx)
    · exact Disabled.insert_ne (fun he => hdeleted (he ▸ hp)) (hc.deleted hp)
    · by_cases hne : q = p
      · subst hne
        cases enabled with
        | true => exact absurd hp (haging rfl)
        | false => exact ⟨_, Table.get_insert_self, rfl⟩
      · exact Disabled.insert_ne hne (hc.aging hp)
  | @adopted r hr hnone =>
    have hcur := hc.current_none hnone
    refine ⟨hc.one, hc.pending, hc.deleted, hc.aging, hc.supported, ?_, ?_, fun {p} hp => ?_⟩
    · intro r' hr'
      rw [installed, show c.currentRegistry = none from hcur] at hr'
      cases hr'
      exact hr
    · intro r' hr'
      rw [show c.currentRegistry = none from hcur] at hr'
      cases hr'
    · obtain ⟨r', hr', -⟩ := hc.agingRecord hp
      rw [Catalog.record, installed, hcur, hnone] at hr'
      cases hr'

/-! ## One principal's state entry -/

/-- What an effect does to the state entry of `p`. -/
inductive StateChange (c c' : Catalog) (p : String) : Prop
  | same : c'.principalStates[p]? = c.principalStates[p]? → StateChange c c' p
  | raised {r : Principal} {s : PrincipalState} : c.record p = some r →
      c'.principalStates[p]? = some s → c.generationOf p r < s.generation → StateChange c c' p
  | created {s : PrincipalState} : c.principalStates[p]? = none → c.record p = none →
      c'.principalStates[p]? = some s → StateChange c c' p
  | completed {g : UInt64} {enabled : Bool} :
      c.principalStates[p]? = some { generation := g, enabled := false } →
      c'.principalStates[p]? = some { generation := g, enabled } → StateChange c c' p

theorem lt_of_toNat_succ {a b : UInt64} (h : b.toNat = a.toNat + 1) : a < b := by
  rw [UInt64.lt_iff_toNat_lt, h]
  exact Nat.lt_succ_self _

theorem Effect.state (h : Effect c c') (p : String) : StateChange c c' p := by
  cases h with
  | @prepared id x generation _ _ hquiet hprep =>
    by_cases hp : x.principal = p
    · subst hp
      have hstate : (c.principalStates.insert x.principal
          { generation, enabled := false })[x.principal]? = some { generation, enabled := false } :=
        Table.get_insert_self
      cases x with
      | creation t =>
        obtain ⟨-, hnone, hinstalled, happend⟩ := hprep
        refine .created hnone ?_ hstate
        rw [Catalog.record, hinstalled]
        exact (Registry.appendAccount_cases happend).2.2.2.2.1
      | deletion t | transition t =>
        obtain ⟨-, r, hr, hgen⟩ := hprep
        exact .raised hr hstate (lt_of_toNat_succ hgen)
    · exact .same (Table.get_insert_ne hp)
  | @transitionCompleted id t generation hx hstate =>
    by_cases hp : t.intent.principal = p
    · subst hp
      exact .completed hstate Table.get_insert_self
    · exact .same (Table.get_insert_ne hp)
  | @advanced q r generation enabled _ hr hgen =>
    by_cases hp : q = p
    · subst hp
      exact .raised hr Table.get_insert_self (lt_of_toNat_succ hgen)
    · exact .same (Table.get_insert_ne hp)
  | _ => exact .same rfl

/-- **No effect lowers a governed generation.** -/
theorem Effect.governed_le (hc : c.Fenced) (h : Effect c c') {g : UInt64}
    (hg : c.governed p = some g) : ∃ g', c'.governed p = some g' ∧ g ≤ g' := by
  cases h.state p with
  | same hsame =>
    refine ⟨g, ?_, UInt64.le_refl g⟩
    unfold governed at hg ⊢
    rw [hsame]
    cases hs : c.principalStates[p]? with
    | some s => rw [hs] at hg; exact hg
    | none =>
      rw [hs] at hg
      obtain ⟨r, hr, hrg⟩ := Option.map_eq_some_iff.mp hg
      exact Option.map_eq_some_iff.mpr ⟨r, h.record hc hr, hrg⟩
  | @raised r s hr hs hlt =>
    rw [governed_eq hr] at hg
    cases hg
    exact ⟨s.generation, by rw [governed, hs], UInt64.le_of_lt hlt⟩
  | created hnone hrec =>
    rw [governed, hnone, hrec] at hg
    cases hg
  | @completed g' enabled hs hs' =>
    rw [governed, hs] at hg
    cases hg
    exact ⟨g', by rw [governed, hs'], UInt64.le_refl g'⟩

theorem Effect.deleted (h : Effect c c') (hp : p ∈ c.deletedPrincipals) :
    p ∈ c'.deletedPrincipals := by
  cases h with
  | deletionCompleted => exact Std.ExtTreeSet.mem_insert.mpr (Or.inr hp)
  | _ => exact hp

/-! ## Versions -/

/-- Generations and versions only grow. -/
structure Grows (c c' : Catalog) : Prop where
  governed : ∀ {p : String} {g : UInt64}, c.governed p = some g →
    ∃ g', c'.governed p = some g' ∧ g ≤ g'
  roles : ∀ {name : String} {r : Role}, c.roles[name]? = some r →
    ∃ r' : Role, c'.roles[name]? = some r' ∧ (r' = r ∨ r.version < r'.version)
  assignments : ∀ {id : String} {a : Assignment}, c.assignments[id]? = some a →
    ∃ a' : Assignment, c'.assignments[id]? = some a' ∧
      (a' = a ∨ a'.revoked = true ∧ a.version < a'.version)
  grants : ∀ {id : String} {g : Grant}, c.grants[id]? = some g →
    ∃ g' : Grant, c'.grants[id]? = some g' ∧
      (g' = g ∨ g'.revoked = true ∧ g.version < g'.version)

theorem Grows.refl (c : Catalog) : Grows c c :=
  ⟨fun h => ⟨_, h, UInt64.le_refl _⟩, fun h => ⟨_, h, Or.inl rfl⟩, fun h => ⟨_, h, Or.inl rfl⟩,
    fun h => ⟨_, h, Or.inl rfl⟩⟩

/-- The state version is none of the records. -/
theorem Grows.versioned (h : Grows c c') (version : UInt64) :
    Grows c { c' with stateVersion := version } :=
  ⟨h.governed, h.roles, h.assignments, h.grants⟩

theorem Effect.grows (hc : c.Fenced) (h : Effect c c') : Grows c c' := by
  have hsame : ∀ {β : Type} {t : Table β} {k : String} {v : β} {P : β → Prop},
      t[k]? = some v → ∃ v', t[k]? = some v' ∧ (v' = v ∨ P v') := fun hv => ⟨_, hv, Or.inl rfl⟩
  have hgov := fun {p : String} {g : UInt64} (hg : c.governed p = some g) => h.governed_le hc hg
  cases h with
  | @roleDefined new _ hver =>
    refine ⟨hgov, fun {name r} hr => ?_, hsame, hsame⟩
    rw [Table.get_insert]
    split
    · rename_i heq
      exact ⟨new, rfl, Or.inr (hver r (heq ▸ hr))⟩
    · exact hsame hr
  | @assigned a _ hnone =>
    refine ⟨hgov, hsame, fun {id b} hb => ?_, hsame⟩
    rw [Table.get_insert_ne fun he => by rw [he, hb] at hnone; cases hnone]
    exact hsame hb
  | @assignmentRevoked id a version ha hver =>
    refine ⟨hgov, hsame, fun {id' b} hb => ?_, hsame⟩
    rw [Table.get_insert]
    split
    · rename_i heq
      subst heq
      rw [ha] at hb
      cases hb
      exact ⟨_, rfl, Or.inr ⟨rfl, lt_of_toNat_succ hver⟩⟩
    · exact hsame hb
  | @issued g _ hnone =>
    refine ⟨hgov, hsame, hsame, fun {id b} hb => ?_⟩
    rw [Table.get_insert_ne fun he => by rw [he, hb] at hnone; cases hnone]
    exact hsame hb
  | @grantRevoked id g version hg hver =>
    refine ⟨hgov, hsame, hsame, fun {id' b} hb => ?_⟩
    rw [Table.get_insert]
    split
    · rename_i heq
      subst heq
      rw [hg] at hb
      cases hb
      exact ⟨_, rfl, Or.inr ⟨rfl, lt_of_toNat_succ hver⟩⟩
    · exact hsame hb
  | _ => exact ⟨hgov, hsame, hsame, hsame⟩

/-! ## Runs -/

/-- What happens to a catalog: a command, or the adapter's receipt for an assignment. -/
inductive Event where
  | command (command : Command)
  | receipt (command : Command) (bytes : Bytes)

/-- The catalog an event leaves, whether `apply` succeeds or not. -/
def step (f : ModelFormats) (c : Catalog) : Event → Catalog
  | .command command => ((apply f command).exec c).2
  | .receipt command bytes => c.retainAssignmentReceipt f.sha256 command bytes

def run (f : ModelFormats) (c : Catalog) (events : List Event) : Catalog :=
  events.foldl (step f) c

variable {f : ModelFormats}

/-- An event of a run: nothing, or an effect with a new version. -/
theorem step_cases (hc : c.Fenced) (e : Event) :
    step f c e = c ∨ ∃ d version, Effect c d ∧ step f c e = { d with stateVersion := version } := by
  cases e with
  | receipt command bytes =>
    refine Or.inr ⟨step f c (.receipt command bytes), c.stateVersion, ?_, ?_⟩
    · cases command <;> exact .elsewhere
    · cases command <;> rfl
  | command command =>
    have hsafe := (safe_apply (f := f) hc command).spec
    rw [show step f c (.command command) = ((apply f command).exec c).2 from rfl]
    rcases hexec : (apply f command).exec c with ⟨e | changed, c'⟩
    · exact Or.inl (hsafe.of_error hexec)
    · have hout := hsafe.of_ok hexec
      cases changed with
      | false => exact Or.inl hout
      | true =>
        obtain ⟨d, next, hd, hc', -⟩ := hout
        exact Or.inr ⟨d, next, hd, hc'⟩

theorem initial_fenced : initial.Fenced := by
  have hquiet : initial.Quiet := by
    rintro id x ⟨hx, -⟩
    cases x <;> simp [Holds, initial] at hx
  exact ⟨fun hx => absurd hx (hquiet _ _), fun hx => absurd hx (hquiet _ _),
    fun hp => absurd hp Std.ExtTreeSet.not_mem_empty,
    fun hp => absurd hp Std.ExtTreeSet.not_mem_empty, fun hx => absurd hx (hquiet _ _),
    fun h => (by cases h), fun h => (by cases h),
    fun hp => absurd hp Std.ExtTreeSet.not_mem_empty⟩

theorem step_fenced (hc : c.Fenced) (e : Event) : (step f c e).Fenced := by
  obtain heq | ⟨d, version, hd, heq⟩ := step_cases (f := f) hc e
  · rw [heq]
    exact hc
  · have h := hd.fenced hc
    rw [heq]
    exact ⟨h.one, h.pending, h.deleted, h.aging, h.supported, h.valid, h.adopted, h.agingRecord⟩

theorem run_fenced (hc : c.Fenced) (events : List Event) : (run f c events).Fenced := by
  induction events generalizing c with
  | nil => exact hc
  | cons e events ih => exact ih (step_fenced hc e)

theorem step_deleted (hc : c.Fenced) (e : Event) (hp : p ∈ c.deletedPrincipals) :
    p ∈ (step f c e).deletedPrincipals := by
  obtain heq | ⟨d, version, hd, heq⟩ := step_cases (f := f) hc e
  · rw [heq]
    exact hp
  · rw [heq]
    exact hd.deleted hp

theorem run_deleted (hc : c.Fenced) (events : List Event) (hp : p ∈ c.deletedPrincipals) :
    p ∈ (run f c events).deletedPrincipals := by
  induction events generalizing c with
  | nil => exact hp
  | cons e events ih => exact ih (step_fenced hc e) (step_deleted hc e hp)

theorem step_grows (hc : c.Fenced) (e : Event) : Grows c (step f c e) := by
  obtain heq | ⟨d, version, hd, heq⟩ := step_cases (f := f) hc e
  · rw [heq]
    exact Grows.refl c
  · rw [heq]
    exact (hd.grows hc).versioned version

/-- **Account transitions are serialized and fence their principal.** Of every catalog reached
from the initial one: any two transactions that are not complete are the same one; its principal
is disabled; a deleted principal is disabled, and both stay so however the run goes on; a principal
awaiting activation is disabled; and no event lowers a governed generation. -/
theorem account_transitions_serialized (f : ModelFormats) (events : List Event) :
    let c := run f initial events
    (∀ id id' x y, c.Pending id x → c.Pending id' y → id = id' ∧ x = y) ∧
    (∀ id x, c.Pending id x → c.Disabled x.principal) ∧
    (∀ p, p ∈ c.deletedPrincipals → ∀ more,
      p ∈ (run f c more).deletedPrincipals ∧ (run f c more).Disabled p) ∧
    (∀ p, p ∈ c.needsPasswordAging → c.Disabled p) ∧
    (∀ e p g, c.governed p = some g → ∃ g', (step f c e).governed p = some g' ∧ g ≤ g') := by
  have hc := run_fenced (f := f) initial_fenced events
  refine ⟨fun _ _ _ _ => hc.one, fun _ _ => hc.pending, fun p hp more => ?_, fun _ => hc.aging,
    fun e _ _ => (step_grows hc e).governed⟩
  have hp' := run_deleted (f := f) hc more hp
  exact ⟨hp', (run_fenced hc more).deleted hp'⟩

/-- **`Catalog::apply` is atomic and versioned** on every reachable catalog: a refusal and
`Ok(false)` leave the catalog, `Ok(true)` raises the version by one, there is no panic, and no
generation or version falls, so none of the additions wraps. -/
theorem apply_atomic_versioned (f : ModelFormats) (events : List Event) (command : Command) :
    let c := run f initial events
    (match (apply f command).exec c with
      | (.error e, c') => c' = c ∧ ∃ message, e = .refused message
      | (.ok false, c') => c' = c
      | (.ok true, c') => c'.stateVersion.toNat = c.stateVersion.toNat + 1) ∧
    Grows c ((apply f command).exec c).2 := by
  have hc := run_fenced (f := f) initial_fenced events
  have hsafe := safe_apply (f := f) hc command
  refine ⟨?_, step_grows hc (.command command)⟩
  have hpanic := hsafe.noPanic
  rcases hexec : (apply f command).exec (run f initial events) with ⟨e | changed, c'⟩
  · rw [hexec] at hpanic
    refine ⟨hsafe.spec.of_error hexec, ?_⟩
    cases e with
    | refused message => exact ⟨message, rfl⟩
    | panicked message => exact absurd rfl (hpanic.out message)
  · have hout := hsafe.spec.of_ok hexec
    cases changed with
    | false => exact hout
    | true =>
      obtain ⟨d, next, -, rfl, hnext⟩ := hout
      exact hnext

end Catalog

end LumaOS.Governance
