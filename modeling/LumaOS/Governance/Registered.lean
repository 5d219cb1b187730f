import LumaOS.Governance.Authorization

/-!
# The records of a reachable catalog

`Catalog::apply` checks a role, an assignment or a grant when it is written and never again. What it
checked still holds of every record of every catalog a run reaches (`run_registered`): records are
stored under their own names, and the only later write, a revocation, raises the version.
-/

namespace LumaOS.Governance

open LumaOS.Base LumaOS.Text

/-- What `IssueGrant` checked of a grant on file, whether it was revoked since or not. -/
structure GrantOk (g : Grant) : Prop where
  id : identifier g.id = true
  assignment : identifier g.assignment = true
  version : g.version ≠ 0
  assignmentVersion : g.assignmentVersion ≠ 0
  window : 0 < g.notBeforeMs ∧ g.notBeforeMs < g.expiresMs
  selector : g.selector.validate = .ok ()
  constraints : g.constraints.validate g.selector g.action = .ok ()

/-- A positive window. -/
theorem grantValidity_eq_ok {notBefore expires : Int} {u : Unit}
    (h : grantValidity notBefore expires = .ok u) : 0 < notBefore ∧ notBefore < expires := by
  simp only [grantValidity, refuseIf_eq_ok, Bool.or_eq_false_iff, decide_eq_false_iff_not,
    Int.not_le, Option.isNone_eq_false_iff, Option.isSome_filter] at h
  obtain ⟨⟨hpos, -⟩, hlength⟩ := h
  obtain ⟨v, hv, hlt⟩ := Option.any_eq_true _ _ |>.mp hlength
  simp only [Bool.and_eq_true, decide_eq_true_eq] at hlt
  have hsub := i64Sub_eq_some.mp hv
  omega

theorem grant_validate_ok {g : Grant} {u : Unit} (h : g.validate = .ok u) : GrantOk g := by
  simp only [Grant.validate, bind_eq_ok, refuseIf_eq_ok, Bool.or_eq_false_iff,
    Bool.not_eq_false', beq_eq_false_iff_ne, bne_eq_false_iff_eq] at h
  obtain ⟨_, -, _, hwindow, _, hselector, _, hconstraints,
    ⟨⟨⟨⟨⟨hid, hassignment⟩, hversion⟩, -⟩, hone⟩, -⟩, -⟩ := h
  refine ⟨hid, hassignment, fun h0 => ?_, hversion, grantValidity_eq_ok hwindow, hselector,
    hconstraints⟩
  rw [h0] at hone
  cases hone

namespace Catalog

variable {c c' : Catalog}

/-- Every record is under its own name and passed the checks of its command. -/
structure Registered (c : Catalog) : Prop where
  grants : ∀ (id : String) (g : Grant), c.grants[id]? = some g → g.id = id ∧ GrantOk g
  assignments : ∀ (id : String) (a : Assignment), c.assignments[id]? = some a →
    a.id = id ∧ identifier a.role = true
  roles : ∀ (name : String) (r : Role), c.roles[name]? = some r → r.name = name ∧ RoleOk r

theorem ne_zero_of_succ {v w : UInt64} (h : v.toNat = w.toNat + 1) : v ≠ 0 := by
  rintro rfl
  cases h

theorem Effect.registered (hc : c.Registered) (h : Effect c c') : c'.Registered := by
  cases h with
  | @roleDefined r hr hver =>
    refine ⟨hc.grants, hc.assignments, fun name role hrole => ?_⟩
    rw [Table.get_insert] at hrole
    split at hrole
    · rename_i heq
      cases hrole
      exact ⟨heq, hr⟩
    · exact hc.roles name role hrole
  | @assigned a hv hnone =>
    refine ⟨hc.grants, fun id b hb => ?_, hc.roles⟩
    rw [Table.get_insert] at hb
    split at hb
    · rename_i heq
      cases hb
      simp only [Assignment.validate, bind_eq_ok, refuseIf_eq_ok, Bool.or_eq_false_iff,
        Bool.not_eq_false'] at hv
      obtain ⟨_, -, _, -, ⟨⟨⟨⟨⟨⟨-, hrole⟩, -⟩, -⟩, -⟩, -⟩, -⟩⟩ := hv
      exact ⟨heq, hrole⟩
    · exact hc.assignments id b hb
  | @assignmentRevoked id a version ha hver =>
    refine ⟨hc.grants, fun id' b hb => ?_, hc.roles⟩
    rw [Table.get_insert] at hb
    split at hb
    · rename_i heq
      subst heq
      cases hb
      exact hc.assignments id a ha
    · exact hc.assignments id' b hb
  | @issued g hissue hnone =>
    refine ⟨fun id g' hg => ?_, hc.assignments, hc.roles⟩
    rw [Table.get_insert] at hg
    split at hg
    · rename_i heq
      cases hg
      simp only [Grant.issue, bind_eq_ok] at hissue
      obtain ⟨_, hvalid, -⟩ := hissue
      exact ⟨heq, grant_validate_ok hvalid⟩
    · exact hc.grants id g' hg
  | @grantRevoked id g version hg hver =>
    refine ⟨fun id' g' hg' => ?_, hc.assignments, hc.roles⟩
    rw [Table.get_insert] at hg'
    split at hg'
    · rename_i heq
      subst heq
      cases hg'
      obtain ⟨hid, hok⟩ := hc.grants id g hg
      exact ⟨hid, { hok with version := ne_zero_of_succ hver }⟩
    · exact hc.grants id' g' hg'
  | _ => exact ⟨hc.grants, hc.assignments, hc.roles⟩

variable {f : ModelFormats}

theorem step_registered (hf : c.Fenced) (hc : c.Registered) (e : Event) :
    (step f c e).Registered := by
  obtain heq | ⟨d, version, hd, heq⟩ := step_cases (f := f) hf e
  · rw [heq]
    exact hc
  · have h := hd.registered hc
    rw [heq]
    exact ⟨h.grants, h.assignments, h.roles⟩

theorem initial_registered : initial.Registered where
  grants id g h := by simp [initial] at h
  assignments id a h := by simp [initial] at h
  roles name r h := by simp [initial] at h

/-- **Every record of a reachable catalog passed the checks of its command.** -/
theorem run_registered (hf : c.Fenced) (hc : c.Registered) (events : List Event) :
    (run f c events).Registered := by
  induction events generalizing c with
  | nil => exact hc
  | cons e events ih => exact ih (step_fenced hf e) (step_registered hf hc e)

end Catalog

end LumaOS.Governance
