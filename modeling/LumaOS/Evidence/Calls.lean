import LumaOS.Evidence.Directory

/-!
# One call, under the replies it sees

The rule of `EndsOn` for each call of `retention.rs`: a read, a check, the creation of a record with
its bytes, and `unlinkat`. Where a call is not done the directory is left as it was; a record can
also be left with the first bytes of what was to be written.
-/

namespace LumaOS.Evidence

open LumaOS.Base LumaOS.Text
open Mut (exec)

/-- The directory with `f` under `name`. -/
def Directory.put (d : Directory) (name : String) (f : File) : Directory :=
  { d with files := d.files.insert name f }

/-- The directory without `names`. -/
def Directory.without (d : Directory) (names : List String) : Directory :=
  { d with files := names.foldl (fun t n => t.erase n) d.files }

/-- The custody of a file that the store has written. -/
def File.kept (f : File) : Bool :=
  f.stat.isFile && f.stat.uid == 0 && f.stat.mode &&& 0o077 == 0 && f.stat.nlink == 1

theorem isPrivate_of_kept {f : File} {limit : Nat} (h : f.kept = true)
    (hlength : f.bytes.length ≤ limit) : f.isPrivate limit = true := by
  simp_all [File.kept, File.isPrivate]

theorem kept_created (seen : Seen) : (created seen).kept = true := by
  have hmode : (0o600 &&& ~~~seen.umask) &&& 0o077 = 0 := by
    rw [UInt32.and_comm 0o600, UInt32.and_assoc, show (0o600 &&& 0o077 : UInt32) = 0 from rfl,
      UInt32.and_zero]
  simp [File.kept, created, hmode]

/-- The reply says that the call was done. -/
def Done (replies : List (Reply Seen)) : Prop := ∃ seen rest, replies = .done seen :: rest

variable {α β : Type} {d : Directory} {replies : List (Reply Seen)} {name : String} {bytes : Bytes}
  {S : β → Running Directory Seen → Prop} {E : Directory → Prop}

theorem endsOn_bind_observe {read : Directory → Result α} {f : α → Calls Directory Seen β}
    (hE : ¬ (Done replies ∧ ∃ a, read d = .ok a) → E d)
    (hf : ∀ a seen rest, read d = .ok a → replies = .done seen :: rest →
      EndsOn (f a) d rest S E) : EndsOn (observe read >>= f) d replies S E := by
  have hread : ∀ seen : Seen, exec (do let d ← get; liftM (read d) : Mut Directory α) d =
      (read d, d) := fun _ => rfl
  refine endsOn_bind ?_
  unfold EndsOn
  rcases replies with _ | ⟨seen | ⟨seen, message⟩ | message, rest⟩
  · exact hE fun h => by
      obtain ⟨⟨_, _, h⟩, -⟩ := h
      cases h
  · rw [observe, exec_call_done, hread seen]
    cases hr : read d with
    | error e =>
      refine hE fun h => ?_
      obtain ⟨-, a, ha⟩ := h
      rw [hr] at ha
      cases ha
    | ok a => exact hf a seen rest hr rfl
  · rw [observe, exec_call_lost, hread seen]
    have hEd : E d := hE fun h => by
      obtain ⟨⟨_, _, h⟩, -⟩ := h
      cases h
    cases read d with
    | error e => exact hEd
    | ok a => exact hEd
  · exact hE fun h => by
      obtain ⟨⟨_, _, h⟩, -⟩ := h
      cases h

theorem endsOn_bind_probe {f : Unit → Calls Directory Seen β} (hE : ¬ Done replies → E d)
    (hf : ∀ seen rest, replies = .done seen :: rest → EndsOn (f ()) d rest S E) :
    EndsOn (probe >>= f) d replies S E := by
  refine (@endsOn_bind_call _ _ _ _ _ _ _ _ _ (fun _ => pure ()) (fun _ => ()) (fun _ => d)) (fun _ => rfl) (fun h => hE fun hdone => ?_) (fun seen message rest h => hE fun hdone => ?_) hf
  · obtain ⟨seen, rest, rfl⟩ := hdone
    exact h trivial
  · obtain ⟨seen', rest', h'⟩ := hdone
    rw [h] at h'
    cases h'

theorem get_without {names : List String} {a : String} :
    (d.without names).files[a]? = if a ∈ names then none else d.files[a]? :=
  Table.get_eraseAll

theorem unlink_eq {f : File} (h : d.files[name]? = some f) (_ : Seen) :
    exec (do
      let d ← get
      refuseIf (!d.files.contains name) "No such file or directory (os error 2)"
      set { d with files := d.files.erase name } : Mut Directory PUnit) d =
        (.ok .unit, d.without [name]) := by
  have hmem : d.files.contains name = true :=
    Std.ExtTreeMap.mem_iff_contains.mp (Table.mem_iff_get.mpr ⟨f, h⟩)
  rw [Mut.exec_bind_get, (@Mut.exec_bind_of_ok _ _ _ _ _ _ d ())]
  · rfl
  · rw [hmem]
    rfl

/-- `unlinkat` of a file that is there. -/
theorem endsOn_bind_unlink {f : Unit → Calls Directory Seen β} {file : File}
    (hfile : d.files[name]? = some file) (hE : ¬ Applied replies → E d)
    (hlost : ∀ seen message rest, replies = .lost seen message :: rest → E (d.without [name]))
    (hf : ∀ seen rest, replies = .done seen :: rest →
      EndsOn (f ()) (d.without [name]) rest S E) :
    EndsOn (unlink name >>= f) d replies S E :=
  (@endsOn_bind_call _ _ _ _ _ _ _ _ _ _ (fun _ => .unit) (fun _ => d.without [name])) (unlink_eq hfile) hE hlost hf

/-! ## A record -/

theorem modify_put {f : File} {g : File → File} :
    { d.put name f with files := (d.put name f).files.modify name g } = d.put name (g f) := by
  simp only [Directory.put, Table.modify_insert]

/-- The record that a call has created, with the bytes it has so far. -/
def Written (bytes : Bytes) (f : File) : Prop := f.kept = true ∧ f.bytes = bytes

/-- **A record is created and written.** It is left torn only by a call that stops between its
creation and its last byte. -/
theorem endsOn_bind_record {f : Unit → Calls Directory Seen β} (hE : E d)
    (htorn : d.files[name]? = none → ∀ g part, Written part g → part <+: bytes →
      Applied replies → ¬ Inside 3 replies → E (d.put name g))
    (hlost : d.files[name]? = none → ∀ g a b c m rest, Written bytes g →
      replies = .done a :: .done b :: .lost c m :: rest → E (d.put name g))
    (hf : d.files[name]? = none → ∀ g a b c rest, Written bytes g →
      replies = .done a :: .done b :: .done c :: rest → EndsOn (f ()) (d.put name g) rest S E) :
    EndsOn (create name >>= fun _ => writeAll name bytes >>= f) d replies S E := by
  by_cases hmem : d.files.contains name = true
  · -- the name is taken
    have hrefused : ∀ seen : Seen, exec (do
        let d ← get
        refuseIf (d.files.contains name) "File exists (os error 17)"
        set { d with files := d.files.insert name (created seen) } : Mut Directory PUnit) d =
          (refuse "File exists (os error 17)", d) := fun seen => by
      rw [Mut.exec_bind_get, hmem]
      rfl
    refine endsOn_bind ?_
    unfold EndsOn
    rcases replies with _ | ⟨seen | ⟨seen, message⟩ | message, rest⟩
    · exact hE
    · rw [create, exec_call_done, hrefused]
      exact hE
    · rw [create, exec_call_lost, hrefused]
      exact hE
    · exact hE
  have hnew : d.files[name]? = none :=
    Table.not_mem_iff_get.mp fun h => hmem (Std.ExtTreeMap.mem_iff_contains.mp h)
  rw [Bool.not_eq_true] at hmem
  have hcreate : ∀ seen : Seen, exec (do
      let d ← get
      refuseIf (d.files.contains name) "File exists (os error 17)"
      set { d with files := d.files.insert name (created seen) } : Mut Directory PUnit) d =
        (.ok .unit, d.put name (created seen)) := fun seen => by
    rw [Mut.exec_bind_get, hmem]
    rfl
  have hkept := kept_created
  have hempty : ∀ seen, Written [] (created seen) := fun seen => ⟨kept_created seen, rfl⟩
  refine (@endsOn_bind_call _ _ _ _ _ _ _ _ _ _ (fun _ => .unit) (fun seen => d.put name (created seen))) hcreate (fun _ => hE) (fun seen message rest h => ?_) fun seen rest h => ?_
  · refine htorn hnew _ [] (hempty seen) (List.nil_prefix) (h ▸ trivial) fun hin => ?_
    rw [h] at hin
    exact hin
  simp only [writeAll, bind_assoc]
  -- the first part of the bytes
  refine (@endsOn_bind_call _ _ _ _ _ _ _ _ _ _ (fun seen => seen.before bytes) (fun seen' => d.put name ((created seen).append (bytes.take (seen'.before bytes)) seen'))) (fun seen' => by
      rw [show exec (do
          modify fun d : Directory => { d with
            files := d.files.modify name fun f => f.append (bytes.take (seen'.before bytes)) seen' }
          pure (seen'.before bytes) : Mut Directory Nat) (d.put name (created seen)) = _ from rfl]
      exact Prod.ext rfl modify_put) (fun hnot => ?_) (fun seen' message rest' h' => ?_) fun seen' rest' h' => ?_
  · refine htorn hnew _ [] (hempty seen) List.nil_prefix (h ▸ trivial) fun hin => hnot ?_
    rw [h] at hin
    exact Inside.applied (n := 1) hin
  · refine htorn hnew _ (bytes.take (seen'.before bytes)) ⟨hkept seen, rfl⟩ (List.take_prefix ..) (h ▸ trivial)
      fun hin => ?_
    rw [h, h'] at hin
    exact hin
  -- the rest
  refine (@endsOn_bind_call _ _ _ _ _ _ _ _ _ _ (fun _ => .unit) (fun seen'' => d.put name (((created seen).append (bytes.take (seen'.before bytes)) seen').append
      (bytes.drop (seen'.before bytes)) seen''))) (fun seen'' => by
      rw [show exec (modify fun d : Directory => { d with
          files := d.files.modify name fun f => f.append (bytes.drop (seen'.before bytes)) seen'' } :
            Mut Directory PUnit)
          (d.put name ((created seen).append (bytes.take (seen'.before bytes)) seen')) = _ from rfl]
      exact Prod.ext rfl modify_put) (fun hnot => ?_) (fun seen'' message rest'' h'' => ?_) fun seen'' rest'' h'' => ?_
  · refine htorn hnew _ (bytes.take (seen'.before bytes)) ⟨hkept seen, rfl⟩ (List.take_prefix ..) (h ▸ trivial)
      fun hin => hnot ?_
    rw [h, h'] at hin
    exact hin
  · exact hlost hnew _ seen seen' seen'' message rest'' ⟨hkept seen, List.take_append_drop ..⟩
      (by rw [h, h', h''])
  · exact hf hnew _ seen seen' seen'' rest'' ⟨hkept seen, List.take_append_drop ..⟩
      (by rw [h, h', h''])

end LumaOS.Evidence
