import LumaOS.Artifacts.Store
import Mathlib.Data.List.Nodup

/-!
# What a commit does to the tables

`Commit db v r db'` is the effect of a write transaction that commits: one version and one receipt
that names it, for a new artifact or the next version of an old one. `Sound` is what every commit
and every publication keeps (`Sound.commit`, `Sound.link`): versions without gaps, receipts and
versions in step, an object under every hash.
-/

namespace LumaOS.Artifacts

open LumaOS.Base LumaOS.Text

/-- The receipt names the version. -/
structure Names (r : EffectReceipt) (v : Version) : Prop where
  artifactId : r.result.artifactId = v.artifactId
  version : r.result.version = v.version
  contentHash : r.result.contentHash = v.contentHash
  sizeBytes : r.result.sizeBytes = v.sizeBytes

/-- No other receipt has its key. -/
def FreshKey (db : Database) (r : EffectReceipt) : Prop :=
  ∀ q ∈ db.receipts, (q.owner, q.idempotencyKey) ≠ (r.owner, r.idempotencyKey)

/-- A new artifact with its first version. -/
def Database.created (db : Database) (a : Artifact) (v : Version) (r : EffectReceipt) : Database :=
  { db with
    artifacts := db.artifacts ++ [a]
    versions := db.versions ++ [v]
    receipts := db.receipts ++ [r] }

/-- The next version of an artifact. -/
def Database.extended (db : Database) (v : Version) (r : EffectReceipt) (now : String) : Database :=
  { db with
    artifacts := (db.setCurrentVersion v.artifactId v.version now).artifacts
    versions := db.versions ++ [v]
    receipts := db.receipts ++ [r] }

/-- **What a write transaction commits.** -/
inductive Commit (db : Database) (v : Version) (r : EffectReceipt) : Database → Prop where
  | create (a : Artifact) (hid : a.artifactId = v.artifactId) (hcurrent : a.currentVersion = 1)
      (hversion : v.version = 1) (howner : a.owner = r.owner)
      (hnew : ∀ b ∈ db.artifacts, b.artifactId ≠ a.artifactId) (hnames : Names r v)
      (hfresh : FreshKey db r) : Commit db v r (db.created a v r)
  | extend (a : Artifact) (now : String) (ha : a ∈ db.artifacts) (hid : a.artifactId = v.artifactId)
      (hversion : v.version = a.currentVersion + 1) (howner : a.owner = r.owner)
      (hnames : Names r v) (hfresh : FreshKey db r) : Commit db v r (db.extended v r now)

/-- **The tables and the objects agree.** -/
structure Sound (sha256 : Bytes → Vector UInt8 32) (db : Database) : Prop where
  artifactIds : (db.artifacts.map (·.artifactId)).Nodup
  versionsOf : ∀ a ∈ db.artifacts, ∀ n,
    (∃ v ∈ db.versions, v.artifactId = a.artifactId ∧ v.version = n) ↔
      1 ≤ n ∧ n ≤ a.currentVersion
  versionKeys : (db.versions.map fun v => (v.artifactId, v.version)).Nodup
  artifactOf : ∀ v ∈ db.versions, ∃ a ∈ db.artifacts, a.artifactId = v.artifactId
  named : List.Forall₂ Names db.receipts db.versions
  keys : (db.receipts.map fun r => (r.owner, r.idempotencyKey)).Nodup
  ownerOf : ∀ r ∈ db.receipts, ∀ a ∈ db.artifacts, a.artifactId = r.result.artifactId →
    a.owner = r.owner
  objectOf : ∀ v ∈ db.versions, ∃ content, db.objects[v.contentHash]? = some content
  hashed : ∀ (hash : String) (content : Bytes), db.objects[hash]? = some content →
    contentHash sha256 content = hash

variable {sha256 : Bytes → Vector UInt8 32} {db db' : Database} {v : Version} {r : EffectReceipt}

theorem sound_fresh (workflows : Table Workflow) (steps : List Step) :
    Sound sha256 (Database.fresh workflows steps) where
  artifactIds := List.nodup_nil
  versionsOf := by intro a ha; cases ha
  versionKeys := List.nodup_nil
  artifactOf := by intro v hv; cases hv
  named := .nil
  keys := List.nodup_nil
  ownerOf := by intro r hr; cases hr
  objectOf := by intro v hv; cases hv
  hashed := by
    intro hash content h
    simp [Database.fresh] at h

/-- Two artifacts of one identifier are one. -/
theorem Sound.eq_of_artifactId (h : Sound sha256 db) {a b : Artifact} (ha : a ∈ db.artifacts)
    (hb : b ∈ db.artifacts) (hab : a.artifactId = b.artifactId) : a = b :=
  List.inj_on_of_nodup_map h.artifactIds ha hb hab

theorem Sound.eq_of_version (h : Sound sha256 db) {v w : Version} (hv : v ∈ db.versions)
    (hw : w ∈ db.versions) (hid : v.artifactId = w.artifactId) (hversion : v.version = w.version) :
    v = w :=
  List.inj_on_of_nodup_map h.versionKeys hv hw (Prod.ext hid hversion)

theorem Sound.eq_of_key (h : Sound sha256 db) {q r : EffectReceipt} (hq : q ∈ db.receipts)
    (hr : r ∈ db.receipts) (howner : q.owner = r.owner)
    (hkey : q.idempotencyKey = r.idempotencyKey) :
    q = r :=
  List.inj_on_of_nodup_map h.keys hq hr (Prod.ext howner hkey)

/-- The version that a receipt names. -/
theorem Sound.version_of_receipt (h : Sound sha256 db) (hr : r ∈ db.receipts) :
    ∃ v ∈ db.versions, Names r v := by
  obtain ⟨i, hi, rfl⟩ := List.mem_iff_getElem.mp hr
  have hlength := h.named.length_eq
  exact ⟨db.versions[i], List.getElem_mem _, h.named.get hi (hlength ▸ hi)⟩

theorem Sound.receipt_of_version (h : Sound sha256 db) (hv : v ∈ db.versions) :
    ∃ r ∈ db.receipts, Names r v := by
  obtain ⟨i, hi, rfl⟩ := List.mem_iff_getElem.mp hv
  have hlength := h.named.length_eq
  exact ⟨db.receipts[i], List.getElem_mem _, h.named.get (hlength ▸ hi) hi⟩

/-- Receipts of one version are one: they stand at its place. -/
theorem Sound.eq_of_names (h : Sound sha256 db) {q r : EffectReceipt} (hq : q ∈ db.receipts)
    (hr : r ∈ db.receipts) (hnq : Names q v) (hnr : Names r v) : q = r := by
  obtain ⟨i, hi, rfl⟩ := List.mem_iff_getElem.mp hq
  obtain ⟨j, hj, rfl⟩ := List.mem_iff_getElem.mp hr
  have hlength := h.named.length_eq
  have hi' : i < db.versions.length := hlength ▸ hi
  have hj' : j < db.versions.length := hlength ▸ hj
  have hqi : Names db.receipts[i] db.versions[i] := h.named.get hi hi'
  have hrj : Names db.receipts[j] db.versions[j] := h.named.get hj hj'
  have hsame : db.versions[i] = db.versions[j] :=
    h.eq_of_version (List.getElem_mem _) (List.getElem_mem _)
      (hqi.artifactId.symm.trans (hnq.artifactId.trans (hnr.artifactId.symm.trans hrj.artifactId)))
      (hqi.version.symm.trans (hnq.version.trans (hnr.version.symm.trans hrj.version)))
  have hnodup : db.versions.Nodup := h.versionKeys.of_map _
  have hij : i = j := (hnodup.getElem_inj_iff).mp hsame
  subst hij
  rfl

/-! ## Commits and publications keep it -/

theorem Commit.versions (h : Commit db v r db') : db'.versions = db.versions ++ [v] := by
  cases h with
  | create => rfl
  | extend => rfl

theorem Commit.receipts (h : Commit db v r db') : db'.receipts = db.receipts ++ [r] := by
  cases h with
  | create => rfl
  | extend => rfl

theorem Commit.objects (h : Commit db v r db') : db'.objects = db.objects := by
  cases h with
  | create => rfl
  | extend => rfl

theorem Commit.names (h : Commit db v r db') : Names r v := by
  cases h with
  | create => assumption
  | extend => assumption

theorem Commit.freshKey (h : Commit db v r db') : FreshKey db r := by
  cases h with
  | create => assumption
  | extend => assumption

/-- The version is new in a sound store. -/
theorem Commit.new_version (h : Commit db v r db') (hs : Sound sha256 db) :
    ∀ w ∈ db.versions, (w.artifactId, w.version) ≠ (v.artifactId, v.version) := by
  intro w hw heq
  obtain ⟨hid', hversion'⟩ := Prod.mk.inj heq
  cases h with
  | create a hid hcurrent hversion howner hnew hnames hfresh =>
    obtain ⟨b, hb, hbid⟩ := hs.artifactOf w hw
    exact hnew b hb (hbid.trans (hid'.trans hid.symm))
  | extend a now ha hid hversion howner hnames hfresh =>
    have hle := (hs.versionsOf a ha v.version).mp ⟨w, hw, hid'.trans hid.symm, hversion'⟩
    omega

theorem nodup_map_concat {α β : Type} {f : α → β} {xs : List α} {x : α} (h : (xs.map f).Nodup)
    (hx : ∀ y ∈ xs, f y ≠ f x) : ((xs ++ [x]).map f).Nodup := by
  rw [List.map_append, List.nodup_append]
  refine ⟨h, List.nodup_singleton _, fun a ha b hb => ?_⟩
  obtain ⟨y, hy, rfl⟩ := List.mem_map.mp ha
  rw [List.map_singleton, List.mem_singleton] at hb
  rw [hb]
  exact hx y hy

/-- The rows of `artifacts` after the version of one of them moved on. -/
theorem mem_setCurrentVersion {id now : String} {n : Nat} {b : Artifact} :
    b ∈ (db.setCurrentVersion id n now).artifacts ↔
      ∃ a ∈ db.artifacts,
        (a.artifactId = id ∧ b = { a with currentVersion := n, updatedAt := now }) ∨
        (a.artifactId ≠ id ∧ b = a) := by
  unfold Database.setCurrentVersion
  rw [List.mem_map]
  constructor
  · rintro ⟨a, ha, rfl⟩
    refine ⟨a, ha, ?_⟩
    by_cases hid : a.artifactId = id
    · exact .inl ⟨hid, by simp [hid]⟩
    · exact .inr ⟨hid, by simp [hid]⟩
  · rintro ⟨a, ha, ⟨hid, rfl⟩ | ⟨hid, rfl⟩⟩
    · exact ⟨a, ha, by simp [hid]⟩
    · exact ⟨b, ha, by simp [hid]⟩

theorem map_artifactId_setCurrentVersion (db : Database) (id now : String) (n : Nat) :
    (db.setCurrentVersion id n now).artifacts.map (·.artifactId) =
      db.artifacts.map (·.artifactId) := by
  unfold Database.setCurrentVersion
  rw [List.map_map]
  refine List.map_congr_left fun a _ => ?_
  simp only [Function.comp]
  split
  · rfl
  · rfl

theorem exists_concat {p : Version → Prop} :
    (∃ w ∈ db.versions ++ [v], p w) ↔ (∃ w ∈ db.versions, p w) ∨ p v := by
  simp only [List.mem_append, List.mem_singleton]
  constructor
  · rintro ⟨w, hw | rfl, hp⟩
    · exact .inl ⟨w, hw, hp⟩
    · exact .inr hp
  · rintro (⟨w, hw, hp⟩ | hp)
    · exact ⟨w, .inl hw, hp⟩
    · exact ⟨v, .inr rfl, hp⟩

/-- A version that another artifact gets is none of this one's. -/
theorem versionsOf_concat_other (hs : Sound sha256 db) {a : Artifact} (ha : a ∈ db.artifacts)
    (hid : v.artifactId ≠ a.artifactId) (n : Nat) :
    (∃ w ∈ db.versions ++ [v], w.artifactId = a.artifactId ∧ w.version = n) ↔
      1 ≤ n ∧ n ≤ a.currentVersion := by
  rw [exists_concat, hs.versionsOf a ha n]
  exact or_iff_left fun h => hid h.1

theorem Sound.commit (hs : Sound sha256 db) (h : Commit db v r db')
    (hobject : ∃ content, db.objects[v.contentHash]? = some content) : Sound sha256 db' := by
  have hversionKeys : (db'.versions.map fun v => (v.artifactId, v.version)).Nodup := by
    rw [h.versions]
    exact nodup_map_concat hs.versionKeys (h.new_version hs)
  have hkeys : (db'.receipts.map fun r => (r.owner, r.idempotencyKey)).Nodup := by
    rw [h.receipts]
    exact nodup_map_concat hs.keys h.freshKey
  have hnamed : List.Forall₂ Names db'.receipts db'.versions := by
    rw [h.receipts, h.versions]
    exact List.rel_append hs.named (.cons h.names .nil)
  have hobjects : ∀ w ∈ db'.versions, ∃ content, db'.objects[w.contentHash]? = some content := by
    rw [h.versions, h.objects]
    intro w hw
    rcases List.mem_append.mp hw with hw | hw
    · exact hs.objectOf w hw
    · rw [List.mem_singleton.mp hw]
      exact hobject
  have hhashed : ∀ (hash : String) (content : Bytes), db'.objects[hash]? = some content →
      contentHash sha256 content = hash := by
    rw [h.objects]
    exact hs.hashed
  cases h with
  | create a hid hcurrent hversion howner hnew hnames hfresh =>
    refine ⟨nodup_map_concat hs.artifactIds hnew, fun b hb n => ?_, hversionKeys, fun w hw => ?_,
      hnamed, hkeys, fun q hq b hb hqb => ?_, hobjects, hhashed⟩
    · rcases List.mem_append.mp hb with hb | hb
      · exact versionsOf_concat_other hs hb (fun he => hnew b hb (he.symm.trans hid.symm)) n
      · rw [List.mem_singleton.mp hb]
        refine exists_concat.trans ?_
        rw [hcurrent]
        constructor
        · rintro (⟨w, hw, hwid, -⟩ | ⟨-, rfl⟩)
          · obtain ⟨c, hc, hcid⟩ := hs.artifactOf w hw
            exact absurd (hcid.trans hwid) (hnew c hc)
          · omega
        · intro hn
          exact .inr ⟨hid.symm, by omega⟩
    · rcases List.mem_append.mp hw with hw | hw
      · obtain ⟨b, hb, hbid⟩ := hs.artifactOf w hw
        exact ⟨b, List.mem_append_left _ hb, hbid⟩
      · rw [List.mem_singleton.mp hw]
        exact ⟨a, List.mem_append_right _ (List.mem_singleton.mpr rfl), hid⟩
    · rcases List.mem_append.mp hq with hq | hq
      · rcases List.mem_append.mp hb with hb | hb
        · exact hs.ownerOf q hq b hb hqb
        · rw [List.mem_singleton.mp hb] at hqb
          obtain ⟨w, hw, hnames'⟩ := hs.version_of_receipt hq
          obtain ⟨c, hc, hcid⟩ := hs.artifactOf w hw
          exact absurd (hcid.trans (hnames'.artifactId.symm.trans hqb.symm)) (hnew c hc)
      · rw [List.mem_singleton.mp hq] at hqb ⊢
        rcases List.mem_append.mp hb with hb | hb
        · exact absurd (hqb.trans (hnames.artifactId.trans hid.symm)) (hnew b hb)
        · rw [List.mem_singleton.mp hb]
          exact howner
  | extend a now ha hid hversion howner hnames hfresh =>
    refine ⟨?_, fun b hb n => ?_, hversionKeys, fun w hw => ?_, hnamed, hkeys,
      fun q hq b hb hqb => ?_, hobjects, hhashed⟩
    · exact (map_artifactId_setCurrentVersion ..).symm ▸ hs.artifactIds
    · obtain ⟨c, hc, ⟨hcid, rfl⟩ | ⟨hcid, rfl⟩⟩ := mem_setCurrentVersion.mp hb
      · obtain rfl := hs.eq_of_artifactId hc ha (hcid.trans hid.symm)
        refine exists_concat.trans ?_
        simp only [hs.versionsOf c hc n, hversion]
        constructor
        · rintro (hn | ⟨-, rfl⟩)
          · omega
          · omega
        · intro hn
          by_cases hlast : n = c.currentVersion + 1
          · exact .inr ⟨hid.symm, hlast.symm⟩
          · exact .inl ⟨hn.1, by omega⟩
      · exact versionsOf_concat_other hs hc (Ne.symm hcid) n
    · have hfound : ∃ c ∈ db.artifacts, c.artifactId = w.artifactId := by
        rcases List.mem_append.mp hw with hw | hw
        · exact hs.artifactOf w hw
        · rw [List.mem_singleton.mp hw]
          exact ⟨a, ha, hid⟩
      obtain ⟨c, hc, hcid⟩ := hfound
      have hmem : w.artifactId ∈ (db.setCurrentVersion v.artifactId v.version now).artifacts.map
          (·.artifactId) := by
        rw [map_artifactId_setCurrentVersion]
        exact List.mem_map.mpr ⟨c, hc, hcid⟩
      exact List.mem_map.mp hmem
    · obtain ⟨c, hc, hcb⟩ := mem_setCurrentVersion.mp hb
      have hsame : b.artifactId = c.artifactId ∧ b.owner = c.owner := by
        rcases hcb with ⟨-, rfl⟩ | ⟨-, rfl⟩
        · exact ⟨rfl, rfl⟩
        · exact ⟨rfl, rfl⟩
      rw [hsame.2]
      rcases List.mem_append.mp hq with hq | hq
      · exact hs.ownerOf q hq c hc (hsame.1.symm.trans hqb)
      · rw [List.mem_singleton.mp hq] at hqb ⊢
        have hca : c = a := hs.eq_of_artifactId hc ha
          (hsame.1.symm.trans (hqb.trans (hnames.artifactId.trans hid.symm)))
        rw [hca]
        exact howner

/-- The store after `os.link`. -/
def Database.linked (db : Database) (hash : String) (content : Bytes) : Database :=
  if db.objects.contains hash then db
  else { db with objects := db.objects.insert hash content }

theorem linked_object (db : Database) (hash key : String) (content : Bytes) :
    (∃ old, db.objects[key]? = some old ∧ (db.linked hash content).objects[key]? = some old) ∨
      (db.objects[key]? = none ∧ (db.linked hash content).objects[key]? =
        if key = hash then some content else none) := by
  unfold Database.linked
  cases hkey : db.objects[key]? with
  | some old =>
    refine .inl ⟨old, rfl, ?_⟩
    split
    · exact hkey
    · rename_i hnot
      have hne : hash ≠ key := by
        rintro rfl
        exact hnot (Std.ExtTreeMap.contains_iff_mem.mpr (Table.mem_iff_get.mpr ⟨old, hkey⟩))
      exact (Table.get_insert_ne hne).trans hkey
  | none =>
    refine .inr ⟨rfl, ?_⟩
    by_cases heq : key = hash
    · subst heq
      rw [if_pos rfl, if_neg]
      · exact Table.get_insert_self
      · intro hmem
        obtain ⟨old, hold⟩ := Table.mem_iff_get.mp (Std.ExtTreeMap.contains_iff_mem.mp hmem)
        rw [hkey] at hold
        cases hold
    · rw [if_neg heq]
      split
      · exact hkey
      · exact (Table.get_insert_ne (Ne.symm heq)).trans hkey

/-- The tables do not change with the objects. -/
theorem linked_tables (db : Database) (hash : String) (content : Bytes) :
    (db.linked hash content).artifacts = db.artifacts ∧
      (db.linked hash content).versions = db.versions ∧
      (db.linked hash content).receipts = db.receipts ∧
      (db.linked hash content).workflows = db.workflows := by
  unfold Database.linked
  split
  · exact ⟨rfl, rfl, rfl, rfl⟩
  · exact ⟨rfl, rfl, rfl, rfl⟩

theorem Sound.link (hs : Sound sha256 db) (content : Bytes) :
    Sound sha256 (db.linked (contentHash sha256 content) content) := by
  obtain ⟨ha, hv, hr, -⟩ := linked_tables db (contentHash sha256 content) content
  refine ⟨ha ▸ hs.artifactIds, ?_, hv ▸ hs.versionKeys, ?_, hr ▸ hv ▸ hs.named, hr ▸ hs.keys, ?_,
    fun v hmem => ?_, fun hash old h => ?_⟩
  · rw [ha, hv]
    exact hs.versionsOf
  · rw [ha, hv]
    exact hs.artifactOf
  · rw [ha, hr]
    exact hs.ownerOf
  · obtain ⟨old, hold⟩ := hs.objectOf v (hv ▸ hmem)
    rcases linked_object db (contentHash sha256 content) v.contentHash content with
      ⟨old', -, h⟩ | ⟨hnone, -⟩
    · exact ⟨old', h⟩
    · rw [hold] at hnone
      cases hnone
  · rcases linked_object db (contentHash sha256 content) hash content with
      ⟨old', hold', h'⟩ | ⟨-, h'⟩
    · rw [h'] at h
      cases h
      exact hs.hashed hash old hold'
    · rw [h'] at h
      split at h
      · rename_i heq
        cases h
        exact heq.symm
      · cases h

end LumaOS.Artifacts
