import LumaOS.Governance.Apply

/-!
# Account transactions and the fences around their principals

Creations, deletions and credential transitions live in three maps of the catalog and go through
the same three phases. `Transaction` is their sum, `Catalog.Holds` and `Catalog.put` read and write
the right map, and `Catalog.Pending` is "not `Complete`".

`Fenced` is the invariant behind serialization: at most one transaction is pending, its principal
is disabled, deleted and not yet activated principals are disabled, and what the guards of a
preparation established still holds when the transaction completes.

**`pending_put`**: when nothing else is pending, writing a transaction leaves it as the only
candidate, whatever its family. Preparing, permitting and completing are all instances of it.
-/

namespace LumaOS.Governance

open LumaOS.Base LumaOS.Text

/-- An account transaction of any family. -/
inductive Transaction where
  | creation (t : Creation)
  | deletion (t : Deletion)
  | transition (t : Transition)

namespace Transaction

def phase : Transaction → Phase
  | .creation t => t.phase
  | .deletion t => t.phase
  | .transition t => t.phase

def principal : Transaction → String
  | .creation t => t.intent.principal.id
  | .deletion t => t.intent.principal
  | .transition t => t.intent.principal

def withPhase (phase : Phase) : Transaction → Transaction
  | .creation t => .creation { t with phase }
  | .deletion t => .deletion { t with phase }
  | .transition t => .transition { t with phase }

/-- Stored in the same map. -/
def sameFamily : Transaction → Transaction → Bool
  | .creation _, .creation _ => true
  | .deletion _, .deletion _ => true
  | .transition _, .transition _ => true
  | _, _ => false

variable {x : Transaction} {phase : Phase}

@[simp] theorem phase_withPhase : (x.withPhase phase).phase = phase := by cases x <;> rfl

@[simp] theorem principal_withPhase : (x.withPhase phase).principal = x.principal := by
  cases x <;> rfl

theorem sameFamily_withPhase : x.sameFamily (x.withPhase phase) = true := by cases x <;> rfl

end Transaction

namespace Catalog

/-- The catalog stores the transaction under `id`. -/
def Holds (c : Catalog) (id : String) : Transaction → Prop
  | .creation t => c.accountCreations[id]? = some t
  | .deletion t => c.accountDeletions[id]? = some t
  | .transition t => c.accountTransitions[id]? = some t

/-- Store a transaction under `id`. The other fields stay definitionally, whatever its family. -/
def put (c : Catalog) (id : String) (x : Transaction) : Catalog :=
  { c with
    accountCreations := match x with
      | .creation t => c.accountCreations.insert id t
      | _ => c.accountCreations
    accountDeletions := match x with
      | .deletion t => c.accountDeletions.insert id t
      | _ => c.accountDeletions
    accountTransitions := match x with
      | .transition t => c.accountTransitions.insert id t
      | _ => c.accountTransitions }

/-- A stored transaction that is not complete. -/
def Pending (c : Catalog) (id : String) (x : Transaction) : Prop :=
  c.Holds id x ∧ x.phase ≠ .complete

def Quiet (c : Catalog) : Prop := ∀ id x, ¬ c.Pending id x

/-- The principal has a state entry that is not enabled. -/
def Disabled (c : Catalog) (p : String) : Prop :=
  ∃ s : PrincipalState, c.principalStates[p]? = some s ∧ s.enabled = false

/-- The installed registry record of a principal. -/
def record (c : Catalog) (p : String) : Option Principal := c.installed.bind fun r => r.principal p

/-- The governed generation of a principal: its state entry, else its registry record. -/
def governed (c : Catalog) (p : String) : Option UInt64 :=
  match c.principalStates[p]? with
  | some s => some s.generation
  | none => (c.record p).map fun r => r.generation

variable {c : Catalog} {id : String} {x y : Transaction} {p : String}

/-! ## Reading the maps -/

theorem holds_put {id' : String} (h : (c.put id x).Holds id' y) :
    (id' = id ∧ y = x) ∨ (c.Holds id' y ∧ ¬ (id' = id ∧ y.sameFamily x = true)) := by
  cases x <;> cases y <;> simp only [put, Holds, Table.get_insert, Transaction.sameFamily] at h ⊢
  all_goals first
    | exact Or.inr ⟨h, fun hne => Bool.noConfusion hne.2⟩
    | (split at h
       · rename_i heq
         exact Or.inl ⟨heq.symm, by rw [Option.some_inj.mp h]⟩
       · rename_i hne
         exact Or.inr ⟨h, fun hs => hne hs.1.symm⟩)

/-- **Writing the only candidate.** -/
theorem pending_put {id' : String}
    (hothers : ∀ {id' y}, c.Pending id' y → id' = id ∧ y.sameFamily x = true)
    (h : (c.put id x).Pending id' y) : id' = id ∧ y = x ∧ x.phase ≠ .complete := by
  obtain ⟨hid, hy⟩ | ⟨hold, hne⟩ := holds_put h.1
  · exact ⟨hid, hy, hy ▸ h.2⟩
  · exact absurd (hothers ⟨hold, h.2⟩) hne

theorem quiet_of_flags (hc : c.creationPending = false) (hd : c.deletionPending = false)
    (ht : c.transitionPending = false) : c.Quiet := by
  simp only [creationPending, deletionPending, transitionPending, List.any_eq_false,
    bne_iff_ne, ne_eq, not_not] at hc hd ht
  rintro id x ⟨hx, hphase⟩
  cases x with
  | creation t => exact hphase (hc (id, t) (Table.mem_toList_iff_get.mpr hx))
  | deletion t => exact hphase (hd (id, t) (Table.mem_toList_iff_get.mpr hx))
  | transition t => exact hphase (ht (id, t) (Table.mem_toList_iff_get.mpr hx))

theorem not_disabled (h : c.disabled p = false) : ¬ c.Disabled p := by
  rintro ⟨s, hs, hen⟩
  rw [disabled, hs, Option.any_some, hen] at h
  exact Bool.noConfusion h

theorem governed_eq {r : Principal} (h : c.record p = some r) :
    c.governed p = some (c.generationOf p r) := by
  unfold governed generationOf
  cases c.principalStates[p]? with
  | none => rw [h]; rfl
  | some s => rfl

/-! ## The invariant -/

/-- What a pending credential transition relies on when it completes. -/
structure TransitionOk (deleted aging : Names) (t : Transition) : Prop where
  live : t.intent.principal ∉ deleted
  bounded : t.intent.expectedGeneration ≠ u64Max
  activates : t.intent.activation = true → t.intent.principal ∈ aging
  aged : t.intent.principal ∈ aging → t.intent.activation = true ∨ t.intent.locked = true

/-- What the guards of a preparation leave behind, by family. -/
def Supported (c : Catalog) : Transaction → Prop
  | .creation t => t.intent.registryBefore.appendAccount t.intent.principal =
      .ok t.intent.registryAfter
  | .deletion t => t.intent.expectedGeneration ≠ u64Max
  | .transition t => TransitionOk c.deletedPrincipals c.needsPasswordAging t

/-- **The fences**, in every reachable catalog. -/
structure Fenced (c : Catalog) : Prop where
  one : ∀ {id id' x y}, c.Pending id x → c.Pending id' y → id = id' ∧ x = y
  pending : ∀ {id x}, c.Pending id x → c.Disabled x.principal
  deleted : ∀ {p}, p ∈ c.deletedPrincipals → c.Disabled p
  aging : ∀ {p}, p ∈ c.needsPasswordAging → c.Disabled p
  supported : ∀ {id x}, c.Pending id x → c.Supported x
  valid : ∀ {r}, c.installed = some r → r.validate = .ok ()
  adopted : ∀ {r}, c.currentRegistry = some r →
    ∃ old, c.principalRegistry = some old ∧ old.principals ⊆ r.principals
  agingRecord : ∀ {p}, p ∈ c.needsPasswordAging → ∃ r, c.record p = some r ∧ r.uid ≠ 1001

/-- An adopted record is still the installed one. -/
theorem Fenced.record_of_adopted (hc : c.Fenced) {old : Registry} {a : Principal}
    (h : c.principalRegistry = some old) (ha : a ∈ old.principals) : c.record a.id = some a := by
  unfold record
  cases hcur : c.currentRegistry with
  | none =>
    have hi : c.installed = some old := by rw [installed, hcur, h]; rfl
    rw [hi, Option.bind_some]
    exact Registry.principal_of_mem (Registry.nodup_ids (hc.valid hi)) ha
  | some r =>
    have hi : c.installed = some r := by rw [installed, hcur]; rfl
    obtain ⟨old', hold', hsub⟩ := hc.adopted hcur
    rw [h] at hold'
    cases hold'
    rw [hi, Option.bind_some]
    exact Registry.principal_of_mem (Registry.nodup_ids (hc.valid hi)) (hsub ha)

end Catalog

end LumaOS.Governance
