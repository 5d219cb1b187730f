import LumaOS.Updater.Steps
import LumaOS.Base.Run

/-!
# Runs of the updater

`release_safe_when_timely`: in every run of updates, health checks and reboots from an installation,
each operation cut off anywhere, in which every update that gets past its checks is `Timely`, the
machine is `Safe` throughout and no step touches the slot it runs from.

Nothing in `update` looks at the loader: in the run of `release_endangered_by_untimely_updates` the
operator boots the other slot by hand and updates before a health check.
-/

namespace LumaOS.Updater

open LumaOS.Base LumaOS.Text LumaOS.Governance

variable {γ : Type} (R : Releases γ)

/-- What the updater owes the last acknowledged release. -/
structure Safe (w : Machine γ) : Prop where
  /-- The default never leads into a slot that is being written. -/
  selected : ∀ e ∈ w.entries, w.loader.selects e → Intact R w e
  kept : Kept R w
  trials : ∀ m, identity m ∉ w.acknowledged → w.defaulted.count m ≤ 3

/-- Where the step is an update that gets past its checks, it may start. -/
def Timely (e : Event (Machine γ) Op Unit) : Prop :=
  ∀ m governed replies r slot, e.op = .update m governed replies → e.before.running = some r →
    checkUpdate R m governed e.before = .ok slot → Allowed R e.before r m

variable {R} {w : Machine γ} {m : Manifest}

theorem Good.safe (h : Good R w) : Safe R w :=
  ⟨h.selected, h.kept, fun m hm => (Nat.le_add_right _ _).trans (h.budget m hm)⟩

/-! ## The installation -/

theorem holds_append (image spare : Content γ) :
    Content.Holds (fun part => image part ++ spare part) image :=
  ⟨List.prefix_append _ _, List.prefix_append _ _⟩

theorem mem_afterInstall {spare : Slot → Content γ} {e : Entry}
    (he : e ∈ (Machine.afterInstall R m spare).entries) :
    e.manifest = m ∧ e.sequence = m.sequence ∧ ∀ t, e.tries = some t → t = (3, 0) := by
  simp only [Machine.afterInstall, List.mem_cons, List.not_mem_nil, or_false] at he
  obtain rfl | rfl := he
  · refine ⟨rfl, rfl, fun t ht => ?_⟩
    simp only at ht
    split at ht <;> cases ht
    rfl
  · exact ⟨rfl, rfl, fun t ht => (by cases ht)⟩

theorem good_afterInstall (m : Manifest) (spare : Slot → Content γ) :
    Good R (Machine.afterInstall R m spare) where
  named := by simp [Named, Machine.afterInstall, Entry.name]
  tries e he t ht := by
    rw [(mem_afterInstall he).2.2 t ht]
  sequence e he := by
    rw [(mem_afterInstall he).2.1, (mem_afterInstall he).1]
  selected e he _ := by
    rw [Intact, (mem_afterInstall he).1]
    exact holds_append _ _
  kept := ⟨⟨.b, m.sequence, none, m⟩, by simp [Machine.afterInstall], rfl, holds_append _ _, rfl⟩
  running r hr := by cases hr
  fresh e he t ht := Or.inr ((mem_afterInstall he).2.2 t ht)
  defaulted := List.nil_subset _
  final _ := by
    have hreads := R.reads m _ (holds_append (R.image m) (spare .a))
    exact List.mem_singleton.mpr hreads
  budget m' hm' := by
    rw [stock_eq_zero fun e he => if_neg fun hsel => hm' ?_]
    · exact Nat.zero_le 3
    · rw [← hsel.2, (mem_afterInstall he).1]
      exact List.mem_cons_self

/-! ## Runs -/

section Runs

variable [DecidableEq γ]

/-- A step keeps the invariant and the slot it runs from. -/
theorem step_leaves {e : Event (Machine γ) Op Unit} (hw : Good R e.before) (ht : Timely R e)
    (he : e.Is (step R)) : Leaves R e.before e.after := by
  have hafter : e.after = (step R e.before e.op).2 := (congrArg Prod.snd he).symm
  rw [hafter]
  cases hop : e.op with
  | update m governed replies =>
    exact (ends_update hw fun r slot hr hslot => ht m governed replies r slot hop hr hslot).leaves
      (fun _ _ h => h) replies
  | bootHealth authority replies =>
    exact (ends_bootHealth hw).leaves (fun _ _ h => h) replies
  | reboot choice up =>
    refine ⟨good_reboot hw choice up, fun r _ => ?_⟩
    simp only [step, Machine.reboot]
    split
    · cases choice <;> rfl
    · rfl

/-- **No timely run endangers the last acknowledged release.** -/
theorem release_safe_when_timely (R : Releases γ) (m : Manifest) (spare : Slot → Content γ)
    (ops : List Op) (htimely : ∀ e ∈ events (step R) (Machine.afterInstall R m spare) ops,
      Timely R e) :
    let run := events (step R) (Machine.afterInstall R m spare) ops
    (∀ w ∈ Machine.afterInstall R m spare :: run.map Event.after, Safe R w) ∧
      ∀ e ∈ run, ∀ r, e.before.running = some r → e.after.slots r.slot = e.before.slots r.slot := by
  intro run
  have hevery : ∀ e ∈ run, Good R e.before ∧ Leaves R e.before e.after := by
    intro e he
    obtain ⟨past, rest, hrun⟩ := List.append_of_mem he
    have := events_when (I := fun _ => Good R)
      (fun past e ht hw his => (step_leaves hw ht his).1) [] htimely (good_afterInstall m spare)
      past e rest hrun
    exact ⟨this.1, step_leaves this.1 this.2.1 this.2.2.1⟩
  refine ⟨fun w hw => ?_, fun e he => (hevery e he).2.2⟩
  rcases List.mem_cons.mp hw with rfl | hw
  · exact (good_afterInstall m spare).safe
  · obtain ⟨e, he, rfl⟩ := List.mem_map.mp hw
    exact (hevery e he).2.1.safe

end Runs

/-! ## Updates in time and out of it -/

section Decide

variable (R) [DecidableEq γ]

instance decidableIntact (w : Machine γ) (e : Entry) : Decidable (Intact R w e) :=
  inferInstanceAs (Decidable (Content.Holds _ _))

instance decidableKept (w : Machine γ) : Decidable (Kept R w) :=
  inferInstanceAs (Decidable (∃ e ∈ w.entries, e.tries = none ∧ Intact R w e ∧
    identity e.manifest = identity w.installed))

instance decidableAllowed (w : Machine γ) (r : Entry) (m : Manifest) :
    Decidable (Allowed R w r m) :=
  decidable_of_iff ((w.loader.slot = r.slot.other → w.loader.trial = true ∧
    ∀ e ∈ w.entries, w.loader.selects e → (w.slots r.slot.other).Holds (R.image m)) ∧
    r.blessed ∈ w.entries ∧ m ∉ w.booted)
    ⟨fun h => ⟨h.1, h.2.1, h.2.2⟩, fun h => ⟨h.default, h.blessed, h.unbooted⟩⟩

/-- A step that is timely whatever its checks say. -/
def punctual (e : Event (Machine γ) Op Unit) : Bool :=
  match e.op, e.before.running with
  | .update m _ _, some r => decide (Allowed R e.before r m)
  | _, _ => true

theorem timely_of_punctual {e : Event (Machine γ) Op Unit} (h : punctual R e = true) :
    Timely R e := by
  intro m governed replies r slot hop hr _
  simpa [punctual, hop, hr] using h

end Decide

/-- A release of the lab. -/
def sampleManifest (release : String) (sequence : UInt64) : Manifest where
  schemaVersion := 1
  release := release
  sequence := sequence
  environment := "lab"
  architecture := "amd64"
  ubuntu := "24.04"
  edition := "headless"
  rootHash := repeatText "a" 64
  rootBytes := gibi
  hashBytes := mebi
  artifacts := [("root.ext4", gibi), ("root.verity", mebi), ("slot-a.efi", mebi),
    ("slot-b.efi", mebi), ("bootloader.efi", mebi), ("secureboot.cer", 4096)].map fun x =>
      ⟨x.1, x.2, repeatText "b" 64⟩

/-- Images whose blocks name their release. -/
def namedBlocks : Releases Identity where
  image m _ := [identity m]
  identity c := (c .root).headD (identity (sampleManifest "none" 1))
  reads m c h := by
    obtain ⟨rest, hrest⟩ := h.1
    rw [← hrest]
    rfl

/-- Nothing fails in `n` calls. -/
def done (n : Nat) : List (Reply Unit) := List.replicate n (.done ())

def installed : Manifest := sampleManifest "luma-5" 5
def next : Manifest := sampleManifest "luma-6" 6

/-- The machines of a run from the installation. -/
def machines (ops : List Op) : List (Machine Identity) :=
  (events (step namedBlocks) (Machine.afterInstall namedBlocks installed fun _ _ => []) ops).map
    Event.after

def firstBoot : Op := .reboot (.byDefault ⟨.a, 5, some (3, 0), installed⟩) true
def healthy : Op := .bootHealth none (done 11)
def updated : Op := .update next none (done 19)

/-- The third trial boot of the candidate comes up; nobody acknowledges it. -/
def trials : List Op := [.reboot (.byDefault ⟨.b, 6, some (3, 0), next⟩) false,
  .reboot (.byDefault ⟨.b, 6, some (2, 1), next⟩) false,
  .reboot (.byDefault ⟨.b, 6, some (1, 2), next⟩) false]

theorem release_safe_after_failed_trials :
    (machines ([firstBoot, healthy, updated] ++ trials)).Forall (Safe namedBlocks) := by
  have hpunctual : ∀ e ∈ events (step namedBlocks)
      (Machine.afterInstall namedBlocks installed fun _ _ => [])
      ([firstBoot, healthy, updated] ++ trials), punctual namedBlocks e = true := by
    decide +kernel
  have hsafe := (release_safe_when_timely namedBlocks installed (fun _ _ => [])
    ([firstBoot, healthy, updated] ++ trials)
    fun e he => timely_of_punctual namedBlocks (hpunctual e he)).1
  exact List.forall_iff_forall_mem.mpr fun w hw => hsafe w (List.mem_cons_of_mem _ hw)

/-- **Updates that are not timely.** After a boot of the other slot by hand, the default leads into
the slot that is being written; before the first health check, an update leaves no counter-free
copy; staged again after its trials, a candidate gets a fourth default boot. -/
theorem release_endangered_by_untimely_updates :
    (∃ w ∈ machines [firstBoot, healthy, .reboot (.byHand ⟨.b, 5, none, installed⟩) true,
        .update next none (done 6)],
      ∃ e ∈ w.entries, w.loader.selects e ∧ ¬ Intact namedBlocks w e) ∧
    (∃ w ∈ machines [firstBoot, updated], ¬ Kept namedBlocks w) ∧
    ∃ w ∈ machines ([firstBoot, healthy, updated] ++ trials ++
        [.reboot (.fallback ⟨.a, 5, none, installed⟩) true, updated] ++ trials.take 1),
      identity next ∉ w.acknowledged ∧ w.defaulted.count next = 4 := by
  decide +kernel

end LumaOS.Updater
