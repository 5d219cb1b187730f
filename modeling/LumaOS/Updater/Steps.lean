import LumaOS.Updater.Invariant

/-!
# The operations keep the invariant

`Allowed` is when an update may start: the default does not select an entry of the slot it writes
(unless that slot already holds the same image), this boot's entry has no counter, and the release
was not booted before. `ends_update` and `ends_bootHealth`: cut off anywhere, an update that starts
so and any health check leave a `Good` machine and have not touched the running slot.
-/

namespace LumaOS.Updater

open LumaOS.Base LumaOS.Text LumaOS.Governance

variable {γ : Type} (R : Releases γ)

/-! ## Staging -/

/-- When an update of the running system `r` to `m` may start, and go on. -/
structure Allowed (w : Machine γ) (r : Entry) (m : Manifest) : Prop where
  default : w.loader.slot = r.slot.other → w.loader.trial = true ∧
    ∀ e ∈ w.entries, w.loader.selects e → (w.slots r.slot.other).Holds (R.image m)
  blessed : r.blessed ∈ w.entries
  unbooted : m ∉ w.booted

/-- A point of an update of `r` to `m`; `c` is what the running slot held at its start. -/
structure Staging (r : Entry) (m : Manifest) (c : Content γ) (w : Machine γ) : Prop where
  good : Good R w
  allowed : Allowed R w r m
  running : w.running = some r
  installed : identity r.manifest = identity w.installed
  frame : w.slots r.slot = c

/-- What is left where an operation is cut off. -/
def Untouched (r : Entry) (c : Content γ) (w : Machine γ) : Prop := Good R w ∧ w.slots r.slot = c

section Staging

variable {R} {r : Entry} {m : Manifest} {c : Content γ} {w : Machine γ}

theorem Staging.untouched (h : Staging R r m c w) : Untouched R r c w := ⟨h.good, h.frame⟩

theorem other_ne (s : Slot) : s ≠ s.other := by cases s <;> decide

/-- The running system's own copy is one that is kept. -/
theorem Staging.own (h : Staging R r m c w) {w' : Machine γ} (hmem : r.blessed ∈ w'.entries)
    (hslot : w'.slots r.slot = w.slots r.slot) (hinstalled : w'.installed = w.installed) :
    Kept R w' := by
  refine ⟨r.blessed, hmem, rfl, ?_, ?_⟩
  · have := (h.good.running r h.running).intact
    unfold Intact at this ⊢
    rwa [show r.blessed.slot = r.slot from rfl, hslot]
  · rw [hinstalled]
    exact h.installed

/-- A block of the image in the other slot. -/
theorem Staging.setBlock (h : Staging R r m c w) {part : Part} {done rest : List γ} {block : γ}
    (hblock : R.image m part = done ++ block :: rest) :
    Staging R r m c (setBlock r.slot.other part done.length block w) := by
  have hrunning : (Updater.setBlock r.slot.other part done.length block w).slots r.slot =
      w.slots r.slot := Function.update_of_ne (other_ne r.slot) _ _
  -- a slot that holds the image already does not change
  have hsame : (w.slots r.slot.other).Holds (R.image m) →
      (Updater.setBlock r.slot.other part done.length block w).slots = w.slots := by
    intro hholds
    have hset := set_of_prefix (hblock ▸ Content.holds_iff.mp hholds part)
    simp only [Updater.setBlock, hset, Function.update_eq_self]
  have hslot : ∀ s, s ≠ r.slot.other →
      (Updater.setBlock r.slot.other part done.length block w).slots s = w.slots s :=
    fun s hs => Function.update_of_ne hs _ _
  refine ⟨⟨h.good.named, h.good.tries, h.good.sequence, fun e he hsel => ?_,
    h.own h.allowed.blessed hrunning rfl, fun r' hr' => ?_, h.good.fresh, h.good.defaulted,
    fun htrial => ?_, h.good.budget⟩, ⟨fun hloader => ?_, h.allowed.blessed, h.allowed.unbooted⟩,
    h.running, h.installed, hrunning.trans h.frame⟩
  · have hintact := h.good.selected e he hsel
    unfold Intact at hintact ⊢
    by_cases hs : e.slot = r.slot.other
    · rw [hsame ((h.allowed.default ((selects_place hsel).1.trans hs)).2 e he hsel)]
      exact hintact
    · rwa [hslot e.slot hs]
  · obtain rfl : r = r' := Option.some.inj (h.running.symm.trans hr')
    have hruns := h.good.running r hr'
    exact hruns.of_same hrunning hruns.entry
  · have hne : w.loader.slot ≠ r.slot.other := fun heq => by
      have htrial : w.loader.trial = false := htrial
      rw [(h.allowed.default heq).1] at htrial
      cases htrial
    have := h.good.final htrial
    rwa [← hslot _ hne] at this
  · obtain ⟨htrial, hholds⟩ := h.allowed.default hloader
    refine ⟨htrial, fun e he hsel => ?_⟩
    rw [hsame (hholds e he hsel)]
    exact hholds e he hsel

theorem Staging.setPending (h : Staging R r m c w) :
    Staging R r m c { w with pending := some m } :=
  ⟨⟨h.good.named, h.good.tries, h.good.sequence, h.good.selected, h.good.kept,
    fun _ hr => (h.good.running _ hr).of_same rfl (h.good.running _ hr).entry, h.good.fresh,
    h.good.defaulted, h.good.final, h.good.budget⟩, ⟨h.allowed.default,
    h.allowed.blessed, h.allowed.unbooted⟩, h.running, h.installed, h.frame⟩

/-- The entry that an update publishes. -/
def candidate (r : Entry) (m : Manifest) : Entry := ⟨r.slot.other, m.sequence, some (3, 0), m⟩

/-- An entry of the running slot is not one of the other. -/
theorem name_ne {x y : Entry} (hx : x.slot = r.slot) (hy : y.slot = r.slot.other) :
    x.name ≠ y.name := fun hname => by
  have : x.slot = y.slot := congrArg Prod.fst hname
  rw [hx, hy] at this
  exact other_ne r.slot this

/-- A release that was not booted has its whole counter on every entry. -/
theorem Good.stake_unbooted (h : Good R w) (hm : m ∉ w.booted) {e : Entry} (he : e ∈ w.entries)
    {loader : Pattern} (hstake : stake loader m e ≠ 0) :
    loader.selects e = true ∧ e.manifest = m ∧ e.tries = some (3, 0) := by
  unfold stake at hstake
  split at hstake
  · rename_i hsel
    cases ht : e.tries with
    | none => simp [Entry.left, ht] at hstake
    | some t =>
      obtain hbooted | rfl := h.fresh e he t ht
      · exact absurd (hsel.2 ▸ hbooted) hm
      · exact ⟨hsel.1, hsel.2, rfl⟩
  · exact absurd rfl hstake

theorem count_unbooted (h : Good R w) (hm : m ∉ w.booted) : w.defaulted.count m = 0 :=
  List.count_eq_zero_of_not_mem fun hd => hm (h.defaulted hd)

theorem stake_candidate (loader : Pattern) : stake loader m (candidate r m) ≤ 3 := by
  unfold stake
  split
  · exact Nat.le_refl 3
  · exact Nat.zero_le 3

/-- With the candidate's entry, the candidate has at most three default boots. -/
theorem Staging.stock_publish (h : Staging R r m c w) :
    stock w.loader (putEntry w.entries (candidate r m)) m ≤ 3 ∨
      stock w.loader (putEntry w.entries (candidate r m)) m ≤ stock w.loader w.entries m := by
  by_cases hsel : w.loader.selects (candidate r m) = true
  · left
    refine (stock_le_of_only (named_putEntry h.good.named _) fun e he hstake => ?_).trans
      (stake_candidate (r := r) w.loader)
    obtain rfl | ⟨he, hname⟩ := mem_putEntry.mp he
    · rfl
    · obtain ⟨hsel', hem, htries⟩ := h.good.stake_unbooted h.allowed.unbooted he hstake
      -- the loader selects both, so they have one name
      refine absurd (Prod.ext ?_ (Prod.ext ?_ htries)) hname
      · exact (selects_place hsel').1.symm.trans (selects_place hsel).1
      · exact (selects_place hsel').2.symm.trans (selects_place hsel).2
  · right
    have hput := stock_putEntry_le w.loader w.entries (candidate r m) m
    have hstake : stake w.loader m (candidate r m) = 0 := if_neg fun h => hsel h.1
    omega

/-- The candidate's entry is published once its slot is complete. -/
theorem Staging.publish (h : Staging R r m c w)
    (hholds : (w.slots r.slot.other).Holds (R.image m)) :
    Staging R r m c { w with entries := putEntry w.entries (candidate r m) } := by
  have hown : ∀ x ∈ w.entries, x.slot = r.slot → x ∈ putEntry w.entries (candidate r m) :=
    fun x hx hslot => mem_putEntry.mpr (Or.inr ⟨hx, name_ne hslot rfl⟩)
  have hblessed := hown r.blessed h.allowed.blessed rfl
  refine ⟨⟨named_putEntry h.good.named _, fun e he t ht => ?_, fun e he => ?_, fun e he hsel => ?_,
    h.own hblessed rfl rfl, fun r' hr' => ?_, fun e he t ht => ?_, h.good.defaulted, h.good.final,
    fun m' hm' => ?_⟩, ⟨fun hloader => ⟨(h.allowed.default hloader).1, fun _ _ _ => hholds⟩,
    hblessed, h.allowed.unbooted⟩, h.running, h.installed, h.frame⟩
  · obtain rfl | ⟨he, -⟩ := mem_putEntry.mp he
    · cases ht
      exact Nat.le_refl 3
    · exact h.good.tries e he t ht
  · obtain rfl | ⟨he, -⟩ := mem_putEntry.mp he
    · rfl
    · exact h.good.sequence e he
  · obtain rfl | ⟨he, -⟩ := mem_putEntry.mp he
    · exact hholds
    · exact h.good.selected e he hsel
  · obtain rfl : r = r' := Option.some.inj (h.running.symm.trans hr')
    exact (h.good.running r hr').of_same rfl (Or.inr hblessed)
  · obtain rfl | ⟨he, -⟩ := mem_putEntry.mp he
    · cases ht
      exact Or.inr rfl
    · exact h.good.fresh e he t ht
  · have hbudget := h.good.budget m' hm'
    by_cases hmm : m' = m
    · subst hmm
      have hcount := count_unbooted h.good h.allowed.unbooted
      rcases h.stock_publish with hle | hle <;> simp only <;> omega
    · have hput := stock_putEntry_le w.loader w.entries (candidate r m) m'
      have hstake : stake w.loader m' (candidate r m) = 0 := if_neg fun h => hmm h.2.symm
      simp only
      omega

/-- An obsolete entry of the other slot is removed. -/
theorem Staging.remove (h : Staging R r m c w) {e : Entry} (he : e.slot = r.slot.other) :
    Staging R r m c { w with entries := removeEntry w.entries e } := by
  have hsub : ∀ {x}, x ∈ removeEntry w.entries e → x ∈ w.entries := fun hx =>
    (mem_removeEntry.mp hx).1
  have hblessed : r.blessed ∈ removeEntry w.entries e :=
    mem_removeEntry.mpr ⟨h.allowed.blessed, name_ne rfl he⟩
  refine ⟨⟨named_removeEntry h.good.named e, fun x hx => h.good.tries x (hsub hx),
    fun x hx => h.good.sequence x (hsub hx), fun x hx => h.good.selected x (hsub hx),
    h.own hblessed rfl rfl, fun r' hr' => ?_, fun x hx => h.good.fresh x (hsub hx),
    h.good.defaulted, h.good.final, fun m' hm' => ?_⟩, ⟨fun hloader =>
    ⟨(h.allowed.default hloader).1, fun x hx => (h.allowed.default hloader).2 x (hsub hx)⟩,
    hblessed, h.allowed.unbooted⟩, h.running, h.installed, h.frame⟩
  · obtain rfl : r = r' := Option.some.inj (h.running.symm.trans hr')
    exact (h.good.running r hr').of_same rfl (Or.inr hblessed)
  · have hbudget := h.good.budget m' hm'
    have hstock := stock_removeEntry_le w.loader w.entries e m'
    simp only
    omega

/-- The default is set to the candidate's trial once its entry is the only one of its slot. -/
theorem Staging.setLoader (h : Staging R r m c w)
    (hholds : (w.slots r.slot.other).Holds (R.image m))
    (honly : ∀ e ∈ w.entries, e.slot = r.slot.other → e = candidate r m) :
    Untouched R r c { w with loader := loaderConfig r.slot.other m.sequence true } := by
  have hcandidate : ∀ e ∈ w.entries,
      (loaderConfig r.slot.other m.sequence true).selects e = true → e = candidate r m :=
    fun e he hsel => honly e he (selects_place (w := { w with loader := _ }) hsel).1.symm
  refine ⟨⟨h.good.named, h.good.tries, h.good.sequence, fun e he hsel => ?_, h.good.kept,
    fun _ hr => (h.good.running _ hr).of_same rfl (h.good.running _ hr).entry, h.good.fresh,
    h.good.defaulted, fun htrial => (by cases htrial), fun m' hm' => ?_⟩, h.frame⟩
  · rw [hcandidate e he hsel]
    exact hholds
  · have hbudget := h.good.budget m' hm'
    have honly : ∀ e ∈ w.entries,
        stake (loaderConfig r.slot.other m.sequence true) m' e ≠ 0 → e = candidate r m := by
      intro e he hstake
      unfold stake at hstake
      split at hstake
      · rename_i hsel
        exact hcandidate e he hsel.1
      · exact absurd rfl hstake
    have hstock := stock_le_of_only h.good.named honly
    by_cases hmm : m' = m
    · subst hmm
      have hcount := count_unbooted h.good h.allowed.unbooted
      have hstake := stake_candidate (r := r) (m := m') (loaderConfig r.slot.other m'.sequence true)
      simp only
      omega
    · have hstake : stake (loaderConfig r.slot.other m.sequence true) m' (candidate r m) = 0 :=
        if_neg fun h => hmm h.2.symm
      simp only
      omega

end Staging

/-! ## The update -/

section Update

variable {R} {r : Entry} {m : Manifest} {c : Content γ} {w : Machine γ} {α : Type}

theorem ends_outside {Q : Unit → Machine γ → Prop} {E : Machine γ → Prop} (hE : E w)
    (hQ : Q () w) : Ends outside w Q E :=
  ends_call hE fun _ => ⟨hQ, hE⟩

theorem ends_write {f : Machine γ → Machine γ} {Q : PUnit → Machine γ → Prop}
    {E : Machine γ → Prop} (hE : E w) (hE' : E (f w)) (hQ : Q .unit (f w)) :
    Ends (write f) w Q E :=
  (ends_modify hE hE').mono (fun _ _ h => h ▸ hQ) fun _ h => h

theorem ends_look {f : Machine γ → Result α} {E : Machine γ → Prop} (hE : E w) :
    Ends (look f) w (fun a w' => w = w' ∧ f w = .ok a) E :=
  ends_call hE fun _ => Mut.spec_bind_get (Mut.spec_lift fun _ h => ⟨⟨rfl, h⟩, hE⟩)

/-- The loop of a partition: the blocks written so far begin it. -/
theorem ends_copyBounded {part : Part} : ∀ {rest done : List γ}
    {w : Machine γ}, R.image m part = done ++ rest → Staging R r m c w →
    done <+: w.slots r.slot.other part → (R.image m part).length ≤
      (w.slots r.slot.other part).length →
    Ends (copyBounded r.slot.other part done.length rest) w
      (fun _ w' => Staging R r m c w' ∧ R.image m part <+: w'.slots r.slot.other part ∧
        ∀ p, p ≠ part → w'.slots r.slot.other p = w.slots r.slot.other p)
      (Untouched R r c)
  | [], done, w, himage, hw, hdone, _ => by
    rw [List.append_nil] at himage
    exact ends_pure ⟨hw, himage ▸ hdone, fun _ _ => rfl⟩
  | block :: rest, done, w, himage, hw, hdone, hlength => by
    have hlt : done.length < (w.slots r.slot.other part).length := by
      rw [himage, List.length_append, List.length_cons] at hlength
      omega
    have hnext := hw.setBlock himage
    have hwritten : (setBlock r.slot.other part done.length block w).slots r.slot.other part =
        (w.slots r.slot.other part).set done.length block := by
      simp only [setBlock, Function.update_self]
    refine ends_bind (ends_write (Q := fun _ w' =>
      w' = setBlock r.slot.other part done.length block w) hw.untouched hnext.untouched rfl) ?_
    rintro _ _ rfl
    have himage' : R.image m part = (done ++ [block]) ++ rest := himage.trans (by simp)
    have hrest := ends_copyBounded himage' hnext (hwritten ▸ prefix_set hdone hlt)
      (by rw [hwritten, List.length_set]; exact hlength)
    rw [List.length_append, List.length_singleton] at hrest
    refine hrest.mono (fun _ w' h => ⟨h.1, h.2.1, fun p hp => (h.2.2 p hp).trans ?_⟩) fun _ h => h
    simp only [setBlock, Function.update_self, Function.update_of_ne hp]

/-- One partition is written whole, or the update stops. -/
theorem ends_writeArtifact {part : Part} (hw : Staging R r m c w) :
    Ends (writeArtifact r.slot.other part (R.image m part)) w
      (fun _ w' => Staging R r m c w' ∧ R.image m part <+: w'.slots r.slot.other part ∧
        ∀ p, p ≠ part → w'.slots r.slot.other p = w.slots r.slot.other p)
      (Untouched R r c) := by
  refine ends_bind (ends_look hw.untouched) ?_
  rintro _ _ ⟨rfl, hcapacity⟩
  rw [refuseIf_eq_ok, decide_eq_false_iff_not, Nat.not_lt] at hcapacity
  have himage : R.image m part = [] ++ R.image m part := rfl
  refine ends_bind (ends_copyBounded himage hw List.nil_prefix hcapacity) ?_
  exact fun _ w' hw' => ends_outside hw'.1.untouched hw'

/-- The other slot is an intact copy of the image, or the update stops. -/
theorem ends_installSlot (hw : Staging R r m c w) :
    Ends (installSlot r.slot.other (R.image m)) w
      (fun _ w' => Staging R r m c w' ∧ (w'.slots r.slot.other).Holds (R.image m))
      (Untouched R r c) := by
  refine ends_bind (ends_writeArtifact hw) ?_
  rintro _ w₁ ⟨hw₁, hroot, -⟩
  refine ends_bind (ends_writeArtifact hw₁) ?_
  rintro _ w₂ ⟨hw₂, hhash, hsame⟩
  refine ends_outside hw₂.untouched ⟨hw₂, ?_, hhash⟩
  rw [hsame .root (by decide)]
  exact hroot

/-- The entries that are not the candidate's are removed from its slot. -/
theorem ends_remove : ∀ {obsolete : List Entry} {w : Machine γ},
    (∀ e ∈ obsolete, e.slot = r.slot.other) → Staging R r m c w →
    (w.slots r.slot.other).Holds (R.image m) →
    (∀ e ∈ w.entries, e.slot = r.slot.other → e = candidate r m ∨ e ∈ obsolete) →
    (∀ e ∈ obsolete, e.name ≠ (candidate r m).name) →
    Ends (obsolete.forM fun e => write fun w => { w with entries := removeEntry w.entries e }) w
      (fun _ w' => Staging R r m c w' ∧ (w'.slots r.slot.other).Holds (R.image m) ∧
        ∀ e ∈ w'.entries, e.slot = r.slot.other → e = candidate r m)
      (Untouched R r c)
  | [], w, _, hw, hholds, hcovered, _ =>
    ends_pure ⟨hw, hholds, fun e he hslot => (hcovered e he hslot).resolve_right List.not_mem_nil⟩
  | e :: obsolete, w, hslots, hw, hholds, hcovered, hnames => by
    rw [List.forall_mem_cons] at hslots hnames
    have hnext := hw.remove hslots.1
    have hcons : (e :: obsolete).forM (fun e => write (γ := γ) fun w =>
        { w with entries := removeEntry w.entries e }) =
        (write fun w => { w with entries := removeEntry w.entries e }) >>= fun _ =>
          obsolete.forM fun e => write fun w =>
            { w with entries := removeEntry w.entries e } := rfl
    rw [hcons]
    refine ends_bind (ends_write (Q := fun _ w' =>
      w' = { w with entries := removeEntry w.entries e }) hw.untouched hnext.untouched rfl) ?_
    rintro _ _ rfl
    refine ends_remove hslots.2 hnext hholds (fun x hx hslot => ?_) hnames.2
    obtain ⟨hx, hname⟩ := mem_removeEntry.mp hx
    refine (hcovered x hx hslot).imp_right fun hmem => ?_
    rcases List.mem_cons.mp hmem with rfl | hmem
    · exact absurd rfl hname
    · exact hmem

/-- The candidate's entry is published and becomes the default's trial. -/
theorem ends_publishEfi (hw : Staging R r m c w)
    (hholds : (w.slots r.slot.other).Holds (R.image m)) :
    Ends (publishEfi r.slot.other m) w (fun _ => Untouched R r c) (Untouched R r c) := by
  have hnext := hw.publish hholds
  refine ends_bind (ends_write (Q := fun _ w' =>
    w' = { w with entries := putEntry w.entries (candidate r m) }) hw.untouched hnext.untouched
    rfl) ?_
  rintro _ _ rfl
  refine ends_bind (ends_look hnext.untouched) ?_
  rintro obsolete w₁ ⟨rfl, hobsolete⟩
  obtain rfl := Except.ok.inj hobsolete
  refine ends_bind (ends_remove (fun e he => ?_) hnext hholds (fun e he hslot => ?_)
    fun e he => ?_) ?_
  · have := (List.mem_filter.mp he).2
    simp only [Bool.and_eq_true, beq_iff_eq] at this
    exact this.1
  · obtain rfl | ⟨hmem, hname⟩ := mem_putEntry.mp he
    · exact Or.inl rfl
    · refine Or.inr (List.mem_filter.mpr ⟨he, ?_⟩)
      rw [Bool.and_eq_true, beq_iff_eq, bne_iff_ne]
      exact ⟨hslot, hname⟩
  · have := (List.mem_filter.mp he).2
    rw [Bool.and_eq_true, bne_iff_ne] at this
    exact this.2
  · rintro _ w₂ ⟨hw₂, hholds₂, honly⟩
    have hset := hw₂.setLoader hholds₂ honly
    refine ends_bind (ends_write (Q := fun _ w' => Untouched R r c w') hw₂.untouched hset hset) ?_
    exact fun _ w' hw' => ends_outside hw' hw'

/-- What the check of the running release says. -/
theorem checkRunningManifest_eq_ok {m : Manifest} {u : Unit}
    (h : checkRunningManifest R w m = .ok u) :
    ∃ r, w.running = some r ∧ R.identity (w.slots r.slot) = identity m := by
  simp only [checkRunningManifest, runningEntry, bind_eq_ok, okOr_eq_ok, refuseIf_eq_ok,
    bne_eq_false_iff_eq] at h
  obtain ⟨r, hr, _, -, hid⟩ := h
  exact ⟨r, hr, hid⟩

theorem checkUpdate_eq_ok {governed : Governed} {slot : Slot}
    (h : checkUpdate R m governed w = .ok slot) :
    ∃ r, w.running = some r ∧ R.identity (w.slots r.slot) = identity w.installed ∧
      slot = r.slot.other := by
  simp only [checkUpdate, bind_eq_ok, pure_eq_ok, runningEntry, okOr_eq_ok] at h
  obtain ⟨_, -, _, hrunning, _, -, _, -, _, -, _, -, r, hr, rfl⟩ := h
  obtain ⟨r', hr', hid⟩ := checkRunningManifest_eq_ok hrunning
  obtain rfl : r = r' := Option.some.inj (hr.symm.trans hr')
  exact ⟨r, hr, hid, rfl⟩

/-- What an operation on `w` leaves: the invariant, and the running slot as it was. -/
def Leaves (R : Releases γ) (w w' : Machine γ) : Prop :=
  Good R w' ∧ ∀ r, w.running = some r → w'.slots r.slot = w.slots r.slot

theorem Untouched.leaves {w' : Machine γ} (hr : w.running = some r)
    (h : Untouched R r (w.slots r.slot) w') : Leaves R w w' := by
  refine ⟨h.1, fun r' hr' => ?_⟩
  obtain rfl : r = r' := Option.some.inj (hr.symm.trans hr')
  exact h.2

theorem Good.leaves (h : Good R w) : Leaves R w w := ⟨h, fun _ _ => rfl⟩

/-- **An update that may start keeps the invariant**, wherever it is cut off. -/
theorem ends_update {governed : Governed} (hw : Good R w)
    (hallowed : ∀ r slot, w.running = some r → checkUpdate R m governed w = .ok slot →
      Allowed R w r m) :
    Ends (update R m governed) w (fun _ w' => Leaves R w w') (Leaves R w) := by
  refine ends_bind (Q := fun _ w' => w = w') (ends_outside hw.leaves rfl) ?_
  rintro _ _ rfl
  refine ends_bind (ends_look hw.leaves) ?_
  rintro slot _ ⟨rfl, hslot⟩
  obtain ⟨r, hr, hid, rfl⟩ := checkUpdate_eq_ok hslot
  rw [R.reads _ _ (hw.running r hr).intact] at hid
  have hstaging : Staging R r m (w.slots r.slot) w :=
    ⟨hw, hallowed r _ hr hslot, hr, hid, rfl⟩
  refine ends_bind (Q := fun _ w' => w = w') (ends_outside hw.leaves rfl) ?_
  rintro _ _ rfl
  have hpending := hstaging.setPending
  have hends : Ends (write (fun w => { w with pending := some m }) >>= fun _ => do
      installSlot r.slot.other (R.image m)
      publishEfi r.slot.other m) w
      (fun _ => Untouched R r (w.slots r.slot)) (Untouched R r (w.slots r.slot)) := by
    refine ends_bind (ends_write (Q := fun _ w' => w' = { w with pending := some m })
      hstaging.untouched hpending.untouched rfl) ?_
    rintro _ _ rfl
    refine ends_bind (ends_installSlot hpending) ?_
    exact fun _ w' hw' => ends_publishEfi hw'.1 hw'.2
  exact hends.mono (fun _ _ h => Untouched.leaves hr h) fun _ h => Untouched.leaves hr h

end Update

/-! ## Boot health -/

section Health

variable {R} {r : Entry} {m : Manifest} {w : Machine γ}

/-- A point of a health check that acknowledges `m`, with the entry of this boot. -/
structure Healthy (R : Releases γ) (r : Entry) (m : Manifest) (c : Content γ) (w : Machine γ) :
    Prop where
  good : Good R w
  running : w.running = some r
  release : identity r.manifest = identity m
  frame : w.slots r.slot = c

variable {c : Content γ}

theorem Healthy.untouched (h : Healthy R r m c w) : Untouched R r c w := ⟨h.good, h.frame⟩

/-- The entry of this boot is blessed. -/
theorem Healthy.bless (h : Healthy R r m c w) :
    Healthy R r m c (Updater.bless r w) ∧ r.blessed ∈ (Updater.bless r w).entries := by
  have hruns := h.good.running r h.running
  unfold Updater.bless
  split
  · rename_i hmem
    rw [List.contains_iff_mem] at hmem
    have hblessed : r.blessed ∈ putEntry (removeEntry w.entries r) r.blessed :=
      mem_putEntry.mpr (Or.inl rfl)
    have hsub : ∀ {x}, x ∈ putEntry (removeEntry w.entries r) r.blessed →
        x = r.blessed ∨ x ∈ w.entries := fun hx =>
      (mem_putEntry.mp hx).imp_right fun hx => (mem_removeEntry.mp hx.1).1
    refine ⟨⟨⟨named_putEntry (named_removeEntry h.good.named r) _, fun x hx t ht => ?_,
      fun x hx => ?_, fun x hx hsel => ?_, ?_, fun r' hr' => ?_, fun x hx t ht => ?_,
      h.good.defaulted, h.good.final, fun m' hm' => ?_⟩, h.running, h.release, h.frame⟩, hblessed⟩
    · obtain rfl | hx := hsub hx
      · cases ht
      · exact h.good.tries x hx t ht
    · obtain rfl | hx := hsub hx
      · exact hruns.sequence
      · exact h.good.sequence x hx
    · obtain rfl | hx := hsub hx
      · exact hruns.intact
      · exact h.good.selected x hx hsel
    · obtain ⟨k, hk, hfree, hintact, hid⟩ := h.good.kept
      by_cases hname : k.name = r.blessed.name
      · -- the new name replaces an entry of the same slot, that is, of the same release
        have hslot : k.slot = r.slot := congrArg Prod.fst hname
        have hsame : identity r.manifest = identity k.manifest := by
          unfold Intact at hintact
          rw [← R.reads _ _ hruns.intact, ← R.reads _ _ hintact, hslot]
        exact ⟨r.blessed, hblessed, rfl, hruns.intact, hsame.trans hid⟩
      · refine ⟨k, mem_putEntry.mpr (Or.inr ⟨mem_removeEntry.mpr ⟨hk, fun hr => hname ?_⟩, hname⟩),
          hfree, hintact, hid⟩
        obtain rfl := eq_of_name h.good.named hk hmem hr
        simp only [Entry.name, Entry.blessed, hfree]
    · obtain rfl : r = r' := Option.some.inj (h.running.symm.trans hr')
      exact hruns.of_same rfl (Or.inr hblessed)
    · obtain rfl | hx := hsub hx
      · cases ht
      · exact h.good.fresh x hx t ht
    · have hbudget := h.good.budget m' hm'
      have hput := stock_putEntry_le w.loader (removeEntry w.entries r) r.blessed m'
      have hremove := stock_removeEntry_le w.loader w.entries r m'
      have hstake : stake w.loader m' r.blessed = 0 := by
        unfold stake
        split <;> rfl
      simp only
      omega
  · rename_i hmem
    rw [List.contains_iff_mem] at hmem
    exact ⟨h, hruns.entry.resolve_left hmem⟩

/-- The release of this boot is installed: its blessed entry is the copy that is kept. -/
theorem Healthy.install (h : Healthy R r m c w) (hblessed : r.blessed ∈ w.entries) :
    Healthy R r m c { w with installed := m, acknowledged := identity m :: w.acknowledged } := by
  have hruns := h.good.running r h.running
  refine ⟨⟨h.good.named, h.good.tries, h.good.sequence, h.good.selected,
    ⟨r.blessed, hblessed, rfl, hruns.intact, h.release⟩, fun r' hr' => ?_, h.good.fresh,
    h.good.defaulted, fun htrial => List.mem_cons_of_mem _ (h.good.final htrial), fun m' hm' => ?_⟩,
    h.running, h.release, h.frame⟩
  · exact (h.good.running r' hr').of_same rfl (h.good.running r' hr').entry
  · exact h.good.budget m' fun hmem => hm' (List.mem_cons_of_mem _ hmem)

theorem Healthy.setFailed (h : Healthy R r m c w) (f : Manifest) :
    Healthy R r m c { w with failedUpdate := some f } :=
  ⟨⟨h.good.named, h.good.tries, h.good.sequence, h.good.selected, h.good.kept,
    fun _ hr => (h.good.running _ hr).of_same rfl (h.good.running _ hr).entry, h.good.fresh,
    h.good.defaulted, h.good.final, h.good.budget⟩, h.running, h.release, h.frame⟩

theorem Healthy.clearPending (h : Healthy R r m c w) :
    Healthy R r m c { w with pending := none } :=
  ⟨⟨h.good.named, h.good.tries, h.good.sequence, h.good.selected, h.good.kept,
    fun _ hr => (h.good.running _ hr).of_same rfl (h.good.running _ hr).entry, h.good.fresh,
    h.good.defaulted, h.good.final, h.good.budget⟩, h.running, h.release, h.frame⟩

/-- A counter-free default selects counter-free entries only. -/
theorem tries_of_final {slot : Slot} {sequence : UInt64} {e : Entry}
    (h : (loaderConfig slot sequence false).selects e = true) : e.tries = none := by
  cases ht : e.tries with
  | none => rfl
  | some t => simp [Pattern.selects, loaderConfig, ht] at h

/-- The default becomes the blessed entry of this boot. -/
theorem Healthy.setLoader (h : Healthy R r m c w) (hblessed : r.blessed ∈ w.entries)
    (hacknowledged : identity m ∈ w.acknowledged) :
    Healthy R r m c { w with loader := loaderConfig r.slot m.sequence false } := by
  have hruns := h.good.running r h.running
  have hsequence : r.sequence = m.sequence :=
    hruns.sequence.trans (congrArg Identity.sequence h.release)
  refine ⟨⟨h.good.named, h.good.tries, h.good.sequence, fun e he hsel => ?_, h.good.kept,
    fun _ hr => (h.good.running _ hr).of_same rfl (h.good.running _ hr).entry, h.good.fresh,
    h.good.defaulted, fun _ => ?_, fun m' hm' => ?_⟩, h.running, h.release, h.frame⟩
  · have hplace := selects_place (w := { w with loader := _ }) hsel
    have hname : e.name = r.blessed.name := by
      simp only [Entry.name, Entry.blessed, tries_of_final hsel, ← hplace.1, ← hplace.2,
        loaderConfig, hsequence]
    rw [eq_of_name h.good.named he hblessed hname]
    exact hruns.intact
  · rw [← h.release, ← R.reads _ _ hruns.intact] at hacknowledged
    exact hacknowledged
  · have hbudget := h.good.budget m' hm'
    have hstock : stock (loaderConfig r.slot m.sequence false) w.entries m' = 0 := by
      refine stock_eq_zero fun e _ => ?_
      unfold stake
      split
      · rename_i hsel
        rw [Entry.left, tries_of_final hsel.1, Option.map_none, Option.getD_none]
      · rfl
    simp only
    omega

/-- The writes of a health check, in a row. -/
theorem acknowledge_eq (r : Entry) (m : Manifest) (failed : Option Manifest) :
    acknowledge (γ := γ) r m failed =
      (if r.tries.isSome then write (bless r) else pure ()) >>= fun _ =>
      (write fun w => { w with installed := m, acknowledged := identity m :: w.acknowledged }) >>=
        fun _ =>
      (match failed with
        | some f => write fun w => { w with failedUpdate := some f }
        | none => pure ()) >>= fun _ =>
      (write fun w => { w with loader := loaderConfig r.slot m.sequence false }) >>= fun _ =>
      (write fun w => { w with pending := none }) >>= fun _ => outside := by
  unfold acknowledge
  cases r.tries <;> cases failed <;> rfl

theorem ends_acknowledge (hw : Healthy R r m c w) (failed : Option Manifest) :
    Ends (acknowledge r m failed) w (fun _ => Untouched R r c) (Untouched R r c) := by
  rw [acknowledge_eq]
  refine ends_bind (Q := fun _ w' => Healthy R r m c w' ∧ r.blessed ∈ w'.entries) ?_ ?_
  · split
    · have hbless := hw.bless
      exact ends_write hw.untouched hbless.1.untouched hbless
    · rename_i htries
      -- a boot without a counter went through its counter-free entry
      have hsame : r.blessed = r := by
        rw [Option.not_isSome_iff_eq_none] at htries
        rw [Entry.blessed, ← htries]
      have hentry := (hw.good.running r hw.running).entry
      rw [hsame, or_self] at hentry
      exact ends_pure ⟨hw, hsame.symm ▸ hentry⟩
  rintro _ w₁ ⟨hw₁, hblessed⟩
  have hnext := hw₁.install hblessed
  refine ends_bind (ends_write (Q := fun _ w' => w' =
    { w₁ with installed := m, acknowledged := identity m :: w₁.acknowledged }) hw₁.untouched
    hnext.untouched rfl) ?_
  rintro _ w₂ hw₂
  refine ends_bind (Q := fun _ w' => Healthy R r m c w' ∧ r.blessed ∈ w'.entries ∧
    identity m ∈ w'.acknowledged) ?_ ?_
  · subst hw₂
    cases failed with
    | none => exact ends_pure ⟨hnext, hblessed, List.mem_cons_self⟩
    | some f =>
      have hfailed := hnext.setFailed f
      exact ends_write hnext.untouched hfailed.untouched ⟨hfailed, hblessed, List.mem_cons_self⟩
  rintro _ w₃ ⟨hw₃, hblessed, hacknowledged⟩
  have hloader := hw₃.setLoader hblessed hacknowledged
  refine ends_bind (ends_write (Q := fun _ => Healthy R r m c) hw₃.untouched hloader.untouched
    hloader) fun _ w₄ hw₄ => ?_
  have hclear := hw₄.clearPending
  refine ends_bind (ends_write (Q := fun _ => Untouched R r c) hw₄.untouched hclear.untouched
    hclear.untouched) fun _ w₅ hw₅ => ?_
  exact ends_outside hw₅ hw₅

/-- The selected release is the running one. -/
theorem selectRelease_eq_ok {authority : Option ReleaseState} {failed : Option Manifest}
    (h : selectRelease R authority w = .ok (m, failed)) :
    ∃ r, w.running = some r ∧ R.identity (w.slots r.slot) = identity m := by
  have hisOk : ∀ {x : Manifest}, (checkRunningManifest R w x).isOk = true →
      ∃ r, w.running = some r ∧ R.identity (w.slots r.slot) = identity x := by
    intro x hx
    cases hcheck : checkRunningManifest R w x with
    | error e => rw [hcheck] at hx; cases hx
    | ok u => exact checkRunningManifest_eq_ok hcheck
  unfold selectRelease at h
  split at h
  · simp only [bind_eq_ok, okOr_eq_ok, pure_eq_ok] at h
    obtain ⟨selected, hhead, _, -, heq⟩ := h
    obtain rfl : selected = m := congrArg Prod.fst heq
    exact hisOk (List.mem_filter.mp (List.mem_of_head? hhead)).2
  · split at h
    · split at h
      · rename_i hok
        obtain rfl := congrArg Prod.fst (pure_eq_ok.mp h)
        exact hisOk hok
      · simp only [bind_eq_ok, pure_eq_ok] at h
        obtain ⟨u, hcheck, heq⟩ := h
        obtain rfl := congrArg Prod.fst heq
        exact checkRunningManifest_eq_ok hcheck
    · simp only [bind_eq_ok, pure_eq_ok] at h
      obtain ⟨u, hcheck, heq⟩ := h
      obtain rfl := congrArg Prod.fst heq
      exact checkRunningManifest_eq_ok hcheck

/-- **A health check keeps the invariant**, wherever it is cut off. -/
theorem ends_bootHealth {authority : Option ReleaseState} (hw : Good R w) :
    Ends (bootHealth R authority) w (fun _ => Leaves R w) (Leaves R w) := by
  refine ends_bind (ends_look hw.leaves) ?_
  rintro r _ ⟨rfl, hr⟩
  rw [runningEntry, okOr_eq_ok] at hr
  refine ends_bind (ends_look hw.leaves) ?_
  rintro shown _ ⟨rfl, -⟩
  split
  · exact ends_outside hw.leaves hw.leaves
  refine ends_bind (Q := fun _ w' => w = w') (ends_outside hw.leaves rfl) ?_
  rintro _ _ rfl
  refine ends_bind (ends_look hw.leaves) ?_
  rintro ⟨m, failed⟩ _ ⟨rfl, hselect⟩
  obtain ⟨r', hr', hid⟩ := selectRelease_eq_ok hselect
  obtain rfl : r = r' := Option.some.inj (hr.symm.trans hr')
  rw [R.reads _ _ (hw.running r hr).intact] at hid
  refine ends_bind_lift hw.leaves fun _ _ => ?_
  refine ends_bind (Q := fun _ w' => w = w') (ends_outside hw.leaves rfl) ?_
  rintro _ _ rfl
  have hends := ends_acknowledge (⟨hw, hr, hid, rfl⟩ : Healthy R r m (w.slots r.slot) w) failed
  exact hends.mono (fun _ _ h => h.leaves hr) fun _ h => h.leaves hr

end Health

end LumaOS.Updater
