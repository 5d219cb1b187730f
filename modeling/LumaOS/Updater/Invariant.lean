import LumaOS.Updater.Operations
import Mathlib.Algebra.BigOperators.Group.List.Basic
import Mathlib.Algebra.GroupWithZero.Nat

/-!
# The invariant of the updater

`Good` holds between any two writes of a run whose updates start in an allowed state (`Allowed`): the
entries that the default selects are intact, so is a counter-free copy of the last acknowledged
release, and what a candidate's entries have left is what remains of its three default boots.
-/

namespace LumaOS.Updater

open LumaOS.Base LumaOS.Text LumaOS.Governance

variable {γ : Type}

/-! ## Contents -/

theorem Content.holds_iff {c image : Content γ} : c.Holds image ↔ ∀ part, image part <+: c part :=
  ⟨fun h part => match part with
    | .root => h.1
    | .hash => h.2, fun h => ⟨h .root, h .hash⟩⟩

/-- One more block of a prefix. -/
theorem prefix_set {done : List γ} {block : γ} {c : List γ} (h : done <+: c)
    (hlength : done.length < c.length) : done ++ [block] <+: c.set done.length block := by
  obtain ⟨rest, rfl⟩ := h
  cases rest with
  | nil => simp at hlength
  | cons x rest =>
    rw [List.set_append_right _ _ (Nat.le_refl _), Nat.sub_self, List.set_cons_zero]
    exact ⟨rest, by simp⟩

/-- A block that is there already. -/
theorem set_of_prefix {done rest : List γ} {block : γ} {c : List γ}
    (h : done ++ block :: rest <+: c) : c.set done.length block = c := by
  obtain ⟨tail, rfl⟩ := h
  rw [List.append_assoc, List.set_append_right _ _ (Nat.le_refl _), Nat.sub_self]
  rfl

/-! ## Entries -/

/-- The default boots an entry has left: what its counter says, where the loader selects it. -/
def stake (loader : Pattern) (m : Manifest) (e : Entry) : Nat :=
  if loader.selects e ∧ e.manifest = m then e.left else 0

/-- The default boots a release has left. -/
def stock (loader : Pattern) (entries : List Entry) (m : Manifest) : Nat :=
  (entries.map (stake loader m)).sum

theorem mem_putEntry {entries : List Entry} {e x : Entry} :
    x ∈ putEntry entries e ↔ x = e ∨ (x ∈ entries ∧ x.name ≠ e.name) := by
  simp [putEntry]

theorem mem_removeEntry {entries : List Entry} {e x : Entry} :
    x ∈ removeEntry entries e ↔ x ∈ entries ∧ x.name ≠ e.name := by
  simp [removeEntry]

theorem stock_removeEntry_le (loader : Pattern) (entries : List Entry) (e : Entry) (m : Manifest) :
    stock loader (removeEntry entries e) m ≤ stock loader entries m := by
  induction entries with
  | nil => exact Nat.le_refl _
  | cons x entries ih =>
    simp only [stock, removeEntry, List.map_cons, List.sum_cons, List.filter_cons] at ih ⊢
    split
    · rw [List.map_cons, List.sum_cons]
      omega
    · omega

theorem stock_putEntry_le (loader : Pattern) (entries : List Entry) (e : Entry) (m : Manifest) :
    stock loader (putEntry entries e) m ≤ stake loader m e + stock loader entries m := by
  unfold putEntry
  rw [stock, List.map_cons, List.sum_cons]
  exact Nat.add_le_add_left (stock_removeEntry_le loader entries e m) _

/-- An entry that goes takes its stake along. -/
theorem stake_add_stock_le (loader : Pattern) {entries : List Entry} {e : Entry} (m : Manifest)
    (he : e ∈ entries) :
    stake loader m e + stock loader (removeEntry entries e) m ≤ stock loader entries m := by
  induction entries with
  | nil => exact absurd he List.not_mem_nil
  | cons x entries ih =>
    rcases List.mem_cons.mp he with rfl | he
    · have h := stock_removeEntry_le loader entries e m
      simpa [stock, removeEntry] using h
    · have hi := ih he
      by_cases hx : x.name = e.name
      · simp only [stock, removeEntry, List.map_cons, List.sum_cons] at hi ⊢
        rw [List.filter_cons_of_neg (by simp [hx])]
        omega
      · simp only [stock, removeEntry, List.map_cons, List.sum_cons] at hi ⊢
        rw [List.filter_cons_of_pos (by simp [hx]), List.map_cons, List.sum_cons]
        omega

/-- Different entries have different names. -/
def Named (entries : List Entry) : Prop := (entries.map Entry.name).Nodup

theorem named_removeEntry {entries : List Entry} (h : Named entries) (e : Entry) :
    Named (removeEntry entries e) := h.sublist (List.filter_sublist.map _)

theorem named_putEntry {entries : List Entry} (h : Named entries) (e : Entry) :
    Named (putEntry entries e) := by
  refine List.nodup_cons.mpr ⟨fun hmem => ?_, named_removeEntry h e⟩
  obtain ⟨x, hx, hname⟩ := List.mem_map.mp hmem
  exact (mem_removeEntry.mp hx).2 hname

theorem eq_of_name {entries : List Entry} (h : Named entries) {x y : Entry} (hx : x ∈ entries)
    (hy : y ∈ entries) (hname : x.name = y.name) : x = y :=
  List.inj_on_of_nodup_map h hx hy hname

theorem stock_eq_zero {loader : Pattern} {entries : List Entry} {m : Manifest}
    (h : ∀ e ∈ entries, stake loader m e = 0) : stock loader entries m = 0 := by
  refine List.sum_eq_zero fun n hn => ?_
  obtain ⟨e, he, rfl⟩ := List.mem_map.mp hn
  exact h e he

/-- Where one entry alone has a stake. -/
theorem stock_le_of_only {loader : Pattern} {m : Manifest} {x : Entry} {entries : List Entry}
    (hnamed : Named entries) (h : ∀ e ∈ entries, stake loader m e ≠ 0 → e = x) :
    stock loader entries m ≤ stake loader m x := by
  induction entries with
  | nil => exact Nat.zero_le _
  | cons y entries ih =>
    obtain ⟨hy, hnamed⟩ := List.nodup_cons.mp hnamed
    rw [List.forall_mem_cons] at h
    rw [stock, List.map_cons, List.sum_cons]
    by_cases hstake : stake loader m y = 0
    · rw [hstake, Nat.zero_add]
      exact ih hnamed h.2
    · have hrest : stock loader entries m = 0 := by
        refine stock_eq_zero fun e he => ?_
        by_contra hne
        rw [h.1 hstake, ← h.2 e he hne] at hy
        exact hy (List.mem_map_of_mem he)
      rw [h.1 hstake, show (entries.map (stake loader m)).sum = 0 from hrest, Nat.add_zero]

/-! ## The invariant -/

variable (R : Releases γ)

/-- The entry's slot is an intact copy of the entry's release. -/
def Intact (w : Machine γ) (e : Entry) : Prop := (w.slots e.slot).Holds (R.image e.manifest)

/-- The running system's slot is an intact copy of its release, and its entry is there. -/
structure Runs (w : Machine γ) (r : Entry) : Prop where
  intact : Intact R w r
  sequence : r.sequence = r.manifest.sequence
  entry : r ∈ w.entries ∨ r.blessed ∈ w.entries

variable {R} in
theorem Runs.of_same {w w' : Machine γ} {r : Entry} (h : Runs R w r)
    (hslot : w'.slots r.slot = w.slots r.slot) (hentry : r ∈ w'.entries ∨ r.blessed ∈ w'.entries) :
    Runs R w' r :=
  ⟨by unfold Intact; rw [hslot]; exact h.intact, h.sequence, hentry⟩

/-- A counter-free entry for an intact copy of the last acknowledged release. -/
def Kept (w : Machine γ) : Prop :=
  ∃ e ∈ w.entries, e.tries = none ∧ Intact R w e ∧ identity e.manifest = identity w.installed

/-- **The invariant.** -/
structure Good (w : Machine γ) : Prop where
  named : Named w.entries
  tries : ∀ e ∈ w.entries, ∀ t, e.tries = some t → t.1 ≤ 3
  sequence : ∀ e ∈ w.entries, e.sequence = e.manifest.sequence
  selected : ∀ e ∈ w.entries, w.loader.selects e → Intact R w e
  kept : Kept R w
  running : ∀ r, w.running = some r → Runs R w r
  fresh : ∀ e ∈ w.entries, ∀ t, e.tries = some t → e.manifest ∈ w.booted ∨ t = (3, 0)
  defaulted : w.defaulted ⊆ w.booted
  /-- A counter-free default names the slot of a release that was acknowledged. -/
  final : w.loader.trial = false → R.identity (w.slots w.loader.slot) ∈ w.acknowledged
  budget : ∀ m, identity m ∉ w.acknowledged →
    w.defaulted.count m + stock w.loader w.entries m ≤ 3

section Good

variable {R} {w : Machine γ} {e : Entry} {m : Manifest}

theorem selects_final (h : w.loader.selects e = true) (ht : e.tries = none) :
    w.loader.trial = false := by
  simp only [Pattern.selects, ht, Bool.and_eq_true, Bool.not_eq_true'] at h
  exact h.2

theorem selects_place (h : w.loader.selects e = true) :
    w.loader.slot = e.slot ∧ w.loader.sequence = e.sequence := by
  simp only [Pattern.selects, Bool.and_eq_true, beq_iff_eq] at h
  exact h.1

/-- What the default boots without a counter was acknowledged. -/
theorem Good.acknowledged_of_selects (h : Good R w) (he : e ∈ w.entries)
    (hsel : w.loader.selects e = true) (ht : e.tries = none) :
    identity e.manifest ∈ w.acknowledged := by
  have hfinal := h.final (selects_final hsel ht)
  rwa [(selects_place hsel).1, R.reads _ _ (h.selected e he hsel)] at hfinal

/-! ## Reboots -/

theorem bump_selects (h3 : ∀ t, e.tries = some t → t.1 ≤ 3) {p : Pattern}
    (h : p.selects e.bump = true) : p.selects e = true := by
  unfold Pattern.selects Entry.bump at *
  cases ht : e.tries with
  | none => simpa [ht] using h
  | some t =>
    have := h3 t ht
    simp only [ht, Option.map_some, Bool.and_eq_true, decide_eq_true_eq] at h ⊢
    exact ⟨h.1, ⟨h.2.1.1, by omega⟩, this⟩

/-- A boot uses up one try of what the default selects. -/
theorem stake_bump (h3 : ∀ t, e.tries = some t → t.1 ≤ 3) {p : Pattern} (m : Manifest) :
    stake p m e.bump ≤ stake p m e ∧
      (p.selects e = true → e.tries ≠ none → e.manifest = m → stake p m e.bump + 1 ≤ stake p m e) := by
  have hleft : e.bump.left = e.left - 1 := by
    unfold Entry.left Entry.bump
    cases e.tries <;> rfl
  have hmanifest : e.bump.manifest = e.manifest := rfl
  constructor
  · unfold stake
    rw [hleft, hmanifest]
    by_cases hb : p.selects e.bump = true ∧ e.manifest = m
    · rw [if_pos hb, if_pos ⟨bump_selects h3 hb.1, hb.2⟩]
      omega
    · rw [if_neg hb]
      exact Nat.zero_le _
  · intro hsel htries hm
    obtain ⟨t, ht⟩ := Option.ne_none_iff_exists'.mp htries
    have hpos : 1 ≤ e.left := by
      obtain ⟨left, tried⟩ := t
      simp only [Pattern.selects, ht, Bool.and_eq_true, decide_eq_true_eq] at hsel
      rw [Entry.left, ht]
      exact hsel.2.1.2
    unfold stake
    rw [hleft, hmanifest, if_pos (⟨hsel, hm⟩ : p.selects e = true ∧ e.manifest = m)]
    split <;> omega

/-- The entries after a boot. -/
theorem mem_boot {x : Entry} (h : x ∈ putEntry (removeEntry w.entries e) e.bump) :
    x = e.bump ∨ x ∈ w.entries :=
  (mem_putEntry.mp h).imp_right fun hx => (mem_removeEntry.mp hx.1).1

/-- A counter-free entry outlives a boot. -/
theorem blessed_boot (h : Named w.entries) (he : e ∈ w.entries) {k : Entry} (hk : k ∈ w.entries)
    (hfree : k.tries = none) : k ∈ putEntry (removeEntry w.entries e) e.bump := by
  by_cases hke : k = e
  · subst hke
    have hbump : k.bump = k := by rw [Entry.bump, hfree, Option.map_none, ← hfree]
    exact mem_putEntry.mpr (Or.inl hbump.symm)
  · have hname : k.name ≠ e.name := fun hn => hke (eq_of_name h hk he hn)
    refine mem_putEntry.mpr (Or.inr ⟨mem_removeEntry.mpr ⟨hk, hname⟩, fun hn => hname ?_⟩)
    simp only [Entry.name, Entry.bump, Prod.mk.injEq, hfree] at hn ⊢
    refine ⟨hn.1, hn.2.1, ?_⟩
    cases ht : e.tries with
    | none => rfl
    | some t => simp [ht] at hn

theorem good_boot [DecidableEq γ] (h : Good R w) (he : e ∈ w.entries) (up : Bool)
    {defaulted : List Manifest} (hd : defaulted = w.defaulted ∨
      (defaulted = e.manifest :: w.defaulted ∧ w.loader.selects e = true)) :
    Good R { w.boot R e up with defaulted } where
  named := named_putEntry (named_removeEntry h.named e) e.bump
  tries x hx t ht := by
    obtain rfl | hx := mem_boot hx
    · obtain ⟨t', ht', rfl⟩ := Option.map_eq_some_iff.mp ht
      have := h.tries e he t' ht'
      simp only
      omega
    · exact h.tries x hx t ht
  sequence x hx := by
    obtain rfl | hx := mem_boot hx
    · exact h.sequence e he
    · exact h.sequence x hx
  selected x hx hsel := by
    obtain rfl | hx := mem_boot hx
    · exact h.selected e he (bump_selects (h.tries e he) hsel)
    · exact h.selected x hx hsel
  kept := by
    obtain ⟨k, hk, hfree, hintact, hid⟩ := h.kept
    exact ⟨k, blessed_boot h.named he hk hfree, hfree, hintact, hid⟩
  running r hr := by
    simp only [Machine.boot] at hr
    split at hr
    · rename_i hup
      cases hr
      rw [Bool.and_eq_true, decide_eq_true_eq] at hup
      exact ⟨hup.2, h.sequence e he, Or.inl (mem_putEntry.mpr (Or.inl rfl))⟩
    · cases hr
  fresh x hx t ht := by
    obtain rfl | hx := mem_boot hx
    · exact Or.inl List.mem_cons_self
    · exact (h.fresh x hx t ht).imp_left (List.mem_cons_of_mem _)
  defaulted := by
    obtain rfl | ⟨rfl, -⟩ := hd
    · exact fun m hm => List.mem_cons_of_mem _ (h.defaulted hm)
    · exact List.cons_subset_cons _ h.defaulted
  final := h.final
  budget m hm := by
    have hbudget := h.budget m hm
    have hstock := stake_add_stock_le w.loader m he
    have hput := stock_putEntry_le w.loader (removeEntry w.entries e) e.bump m
    have hstake := stake_bump (h.tries e he) (p := w.loader) m
    simp only [Machine.boot]
    obtain rfl | ⟨rfl, hsel⟩ := hd
    · omega
    · rw [List.count_cons]
      by_cases hem : e.manifest = m
      · -- a counter-free entry that the default selects was acknowledged
        have htries : e.tries ≠ none := fun hnone =>
          hm (hem ▸ h.acknowledged_of_selects he hsel hnone)
        have hused := hstake.2 hsel htries hem
        rw [if_pos (by simpa using hem)]
        omega
      · rw [if_neg (by simpa using hem)]
        omega

/-- **A reboot keeps the invariant**, whatever the loader or the operator chooses. -/
theorem good_reboot [DecidableEq γ] (h : Good R w) (choice : Choice) (up : Bool) :
    Good R (w.reboot R choice up) := by
  unfold Machine.reboot
  split
  · rename_i hoffers
    have he : choice.entry ∈ w.entries := by
      cases choice <;> simp [Machine.offers] at hoffers <;> simp [Choice.entry, hoffers]
    cases choice with
    | byDefault e =>
      have hsel : w.loader.selects e = true := by
        simp only [Machine.offers, Bool.and_eq_true] at hoffers
        exact hoffers.2
      exact good_boot h he up (Or.inr ⟨rfl, hsel⟩)
    | fallback e | byHand e => exact good_boot h he up (Or.inl rfl)
  · exact ⟨h.named, h.tries, h.sequence, h.selected, h.kept, fun r hr => (by cases hr), h.fresh,
      h.defaulted, h.final, h.budget⟩

end Good

end LumaOS.Updater
