import LumaOS.Json.Size
import LumaOS.Policy.Authority

/-!
# Retention of a closed operation

A closed operation is written to an archive and its records are unlinked one by one. The sweep may
stop anywhere, so the store can be found with the archive and any part of the originals.

* `validateRecordLinks_local`: the link check accepts a map exactly when it accepts the records of
  each operation on their own.
* `validate_ofActive`: the records of a closed operation form an archive that validates.
* `archiveSteps_residue`: the archives already on file are read after the sweep as they were before
  it, whatever is left of the operation (two runs of the inventory's loop in step).
* `retention_interrupted`: from any of these states the inventory projects what is left away, the
  graph that remains validates, and nothing but a start can be added to the operation.
-/

namespace LumaOS.Policy

open LumaOS.Base LumaOS.Text LumaOS.Json LumaOS.Governance

variable {ε : Type} {O : Outside ε} {records : Table (Record ε)} {operation : String}

variable {k : String} {r record : Record ε} {active active' root left : Table (Record ε)}
  {archive : Archive ε} {file : String × Bytes} {rest : List (String × Bytes)} {bytes : Bytes}
  {s : Store ε} {M : Storage}

/-! ## One operation at a time -/

/-- The records of one operation, as a map. -/
def subMap (records : Table (Record ε)) (operation : String) : Table (Record ε) :=
  records.filter fun _ r => r.operationId == operation

/-- The records of the other operations. -/
def otherMap (records : Table (Record ε)) (operation : String) : Table (Record ε) :=
  records.filter fun _ r => r.operationId != operation

theorem get_subMap :
    (subMap records operation)[k]? = some r ↔ ofOperation records operation k r := by
  rw [subMap, Table.get_filter, beq_iff_eq]
  rfl

theorem get_otherMap :
    (otherMap records operation)[k]? = some r ↔ records[k]? = some r ∧ r.operationId ≠ operation := by
  rw [otherMap, Table.get_filter, bne_iff_ne]

theorem linked_of_empty {V : View ε} (h : ∀ k r, ¬ V k r) : Linked O operation V where
  started hr := absurd hr (h _ _)
  start_unique hr := absurd hr (h _ _)
  decision hr := absurd hr (h _ _)
  effect hr := absurd hr (h _ _)
  finished hr := absurd hr (h _ _)
  finished_unique hr := absurd hr (h _ _)
  ended_unique hr := absurd hr (h _ _)
  allowed hr := absurd hr (h _ _)
  settled hr := absurd hr (h _ _)
  certain hr := absurd hr (h _ _)

/-- A map that agrees with another on the operations it holds is linked as the other is. -/
theorem validate_of_agree {part : Table (Record ε)} (hkeyed : Keyed records)
    (h : validateRecordLinks O records = .ok ()) (holds : String → Prop)
    (hpart : ∀ {k : String} {r : Record ε},
      part[k]? = some r ↔ records[k]? = some r ∧ holds r.operationId) :
    Keyed part ∧ validateRecordLinks O part = .ok () := by
  have hkeyed' : Keyed part := fun name r hr => hkeyed name r (hpart.mp hr).1
  refine ⟨hkeyed', (validateRecordLinks_iff hkeyed').mpr fun operation => ?_⟩
  by_cases hop : holds operation
  · have hview : ofOperation part operation = ofOperation records operation := by
      funext k r
      simp only [ofOperation, hpart, eq_iff_iff]
      constructor
      · rintro ⟨⟨hr, -⟩, ho⟩
        exact ⟨hr, ho⟩
      · rintro ⟨hr, ho⟩
        exact ⟨⟨hr, ho ▸ hop⟩, ho⟩
    rw [hview]
    exact (validateRecordLinks_iff hkeyed).mp h operation
  · refine linked_of_empty fun k r hr => hop ?_
    rw [← hr.2]
    exact (hpart.mp hr.1).2

/-- **The link check is local to an operation.** -/
theorem validateRecordLinks_local (hkeyed : Keyed records) :
    validateRecordLinks O records = .ok () ↔
      ∀ operation, validateRecordLinks O (subMap records operation) = .ok () := by
  constructor
  · intro h operation
    exact (validate_of_agree hkeyed h (· = operation) get_subMap).2
  · intro h
    refine (validateRecordLinks_iff hkeyed).mpr fun operation => ?_
    have hkeyed' : Keyed (subMap records operation) := fun name r hr =>
      hkeyed name r (get_subMap.mp hr).1
    have hview : ofOperation (subMap records operation) operation =
        ofOperation records operation := by
      funext k r
      simp only [ofOperation, get_subMap, eq_iff_iff]
      exact ⟨fun hr => hr.1, fun hr => ⟨hr, hr.2⟩⟩
    rw [← hview]
    exact (validateRecordLinks_iff hkeyed').mp (h operation) operation

/-! ## The archive of a closed operation -/

theorem ascending_of_pairwise : ∀ {l : List String}, l.Pairwise (· < ·) → ascending l = true
  | [], _ => rfl
  | [_], _ => rfl
  | a :: b :: l, h => by
    obtain ⟨ha, hl⟩ := List.pairwise_cons.mp h
    rw [ascending, ascending_of_pairwise hl, Bool.and_true, decide_eq_true_eq]
    exact ha b List.mem_cons_self

/-- The ids of a keyed map's records come in order. -/
theorem sorted_ids (hkeyed : Keyed records) :
    ((Table.values records).map Record.recordId).Pairwise (· < ·) := by
  have hids : (Table.values records).map Record.recordId = records.toList.map Prod.fst := by
    rw [Table.values, List.map_map]
    refine List.map_congr_left fun e he => ?_
    exact hkeyed e.1 e.2 (Table.mem_toList_iff_get.mp he)
  rw [hids]
  exact List.pairwise_map.mpr Table.sorted_toList

section OfActive

variable (installation operation : String)

theorem mem_ofActive {installation operation : String} :
    r ∈ (Archive.ofActive installation operation records).records ↔
      ∃ k, ofOperation records operation k r := by
  rw [Archive.ofActive, List.mem_filter, Table.mem_values, beq_iff_eq]
  constructor
  · rintro ⟨⟨k, hk⟩, hop⟩
    exact ⟨k, hk, hop⟩
  · rintro ⟨k, hk, hop⟩
    exact ⟨⟨k, hk⟩, hop⟩

theorem sorted_ofActive (hkeyed : Keyed records) :
    ((Archive.ofActive installation operation records).records.map Record.recordId).Pairwise
      (· < ·) :=
  (sorted_ids hkeyed).sublist (List.filter_sublist.map _)

theorem nodup_ofActive (hkeyed : Keyed records) :
    ((Archive.ofActive installation operation records).records.map Record.recordId).Nodup :=
  (sorted_ofActive installation operation hkeyed).imp Table.ne_of_lt

/-- The records of the archive, under their ids, are those of the operation. -/
theorem insertAll_ofActive (hkeyed : Keyed records) :
    (Archive.ofActive installation operation records).records.foldl
      (fun t r => t.insert r.recordId r) ∅ = subMap records operation := by
  refine Std.ExtTreeMap.ext_getElem? fun k => Option.ext fun r => ?_
  rw [Table.get_insertAll (nodup_ofActive installation operation hkeyed), get_subMap]
  constructor
  · rintro (⟨x, hx, rfl, rfl⟩ | ⟨-, h⟩)
    · obtain ⟨k, hk⟩ := mem_ofActive.mp hx
      rwa [hkeyed k x hk.1]
    · simp at h
  · exact fun hr => Or.inl ⟨r, mem_ofActive.mpr ⟨k, hr⟩, hkeyed k r hr.1, rfl⟩

theorem memberStep_eq_ok (a : Archive ε) (past : List (Record ε)) (r : Record ε)
    (s : Table (Record ε)) :
    a.memberStep O (past.foldl (fun t x => t.insert x.recordId x) ∅) r = .ok s ↔
      ((r.validate O = .ok () ∧ r.installation = a.installation ∧
        r.operationId = a.operationId) ∧ ∀ y ∈ past, y.recordId ≠ r.recordId) ∧
      s = (past ++ [r]).foldl (fun t x => t.insert x.recordId x) ∅ := by
  have hfresh : (past.foldl (fun t x => t.insert x.recordId x)
      (∅ : Table (Record ε))).contains r.recordId = false ↔
        ∀ y ∈ past, y.recordId ≠ r.recordId := by
    rw [← Bool.not_eq_true, Std.ExtTreeMap.contains_iff_mem, Table.mem_insertAll]
    simp
  simp only [Archive.memberStep, bind_eq_ok, refuseIf_eq_ok, pure_eq_ok, Bool.or_eq_false_iff,
    bne_eq_false_iff_eq, hfresh, List.foldl_append, List.foldl_cons, List.foldl_nil]
  constructor
  · rintro ⟨_, hvalid, _, ⟨⟨hinst, hop⟩, hids⟩, rfl⟩
    exact ⟨⟨⟨hvalid, hinst, hop⟩, hids⟩, rfl⟩
  · rintro ⟨⟨⟨hvalid, hinst, hop⟩, hids⟩, rfl⟩
    exact ⟨(), hvalid, (), ⟨⟨hinst, hop⟩, hids⟩, rfl⟩

/-- A passed validation of a record, its identity aside. -/
theorem identity_of_validate (h : r.validate O = .ok ()) :
    isHash r.installation = true ∧ isId r.operationId = true := by
  simp only [Record.validate, bind_eq_ok, refuseIf_eq_ok, Bool.or_eq_false_iff,
    Bool.not_eq_false'] at h
  obtain ⟨_, ⟨⟨⟨-, hinst⟩, -⟩, hop⟩, -⟩ := h
  exact ⟨hinst, hop⟩

/-- **The records of a closed operation form a valid archive.** -/
theorem validate_ofActive {installation operation : String}
    (hfiled : ∀ (k : String) (r : Record ε), records[k]? = some r → Filed O installation k r)
    (hsize : records.size ≤ maxRecords) (hlinks : validateRecordLinks O records = .ok ())
    {outcome : OperationOutcome} (hr : ofOperation records operation k r)
    (hdone : r.payload = .operationFinished outcome) :
    (Archive.ofActive installation operation records).validate O = .ok () := by
  have hkeyed : Keyed records := fun name x hx => (hfiled name x hx).recordId
  obtain ⟨hinst, hop⟩ := identity_of_validate (hfiled k r hr.1).valid
  rw [(hfiled k r hr.1).installation] at hinst
  rw [hr.2] at hop
  have hmem : r ∈ (Archive.ofActive installation operation records).records :=
    mem_ofActive.mpr ⟨k, hr⟩
  have hlength : (Archive.ofActive installation operation records).records.length ≤ maxRecords := by
    refine (List.length_filter_le _ _).trans ?_
    rw [Table.values, List.length_map, Std.ExtTreeMap.length_toList]
    exact hsize
  have hmembers : (Archive.ofActive installation operation records).records.foldlM
      ((Archive.ofActive installation operation records).memberStep O) ∅ =
        .ok (subMap records operation) := by
    have hloop := foldlM_pairwise (P := fun x : Record ε => x.validate O = .ok () ∧
        x.installation = installation ∧ x.operationId = operation)
      (S := fun past => past.foldl (fun t x => t.insert x.recordId x) ∅)
      (R := fun x y => x.recordId ≠ y.recordId)
      (fun past x s _ _ => memberStep_eq_ok (Archive.ofActive installation operation records) past x
        s) (Archive.ofActive installation operation records).records [] (subMap records operation)
      (by simp) List.Pairwise.nil
    refine hloop.mpr ⟨fun x hx => ?_, ?_, (insertAll_ofActive installation operation hkeyed).symm⟩
    · obtain ⟨k', hk'⟩ := mem_ofActive.mp hx
      have := hfiled k' x hk'.1
      exact ⟨this.valid, this.installation, hk'.2⟩
    · exact List.pairwise_map.mp (nodup_ofActive installation operation hkeyed)
  have hone : (Archive.ofActive installation operation records).records.countP Record.closes = 1 := by
    have hcloses : ∀ x : Record ε, x.closes = true ↔ ∃ o, x.payload = .operationFinished o :=
      fun x => by
        unfold Record.closes
        cases x.payload <;> simp
    have hpos := List.countP_pos_iff.mpr ⟨r, hmem, (hcloses r).mpr ⟨outcome, hdone⟩⟩
    have hids : (Archive.ofActive installation operation records).records.countP Record.closes ≤
        ((Archive.ofActive installation operation records).records.map Record.recordId).count k := by
      rw [List.count, List.countP_map]
      refine List.countP_mono_left fun x hx hxc => ?_
      obtain ⟨k', hk'⟩ := mem_ofActive.mp hx
      obtain ⟨o, ho⟩ := (hcloses x).mp hxc
      obtain rfl := ((validateRecordLinks_iff hkeyed).mp hlinks operation).ended_unique hk' ho hr
        hdone
      exact beq_iff_eq.mpr (hkeyed k' x hk'.1)
    have := List.nodup_iff_count_le_one.mp (nodup_ofActive installation operation hkeyed) k
    omega
  simp only [Archive.validate, bind_eq_ok, refuseIf_eq_ok]
  refine ⟨(), ?_, _, hmembers, (), ?_, (), ?_, ?_⟩
  · have hne : (Archive.ofActive installation operation records).records.isEmpty = false :=
      List.isEmpty_eq_false_iff_exists_mem.mpr ⟨r, hmem⟩
    simp only [hne, Bool.or_eq_false_iff, bne_eq_false_iff_eq, Bool.not_eq_false',
      decide_eq_false_iff_not,
      Nat.not_lt]
    exact ⟨⟨⟨⟨rfl, hinst⟩, hop⟩, trivial⟩, hlength⟩
  · exact (validateRecordLinks_local hkeyed).mp hlinks operation
  · rw [hone]
    rfl
  · rw [ascending_of_pairwise (sorted_ofActive installation operation hkeyed)]
    rfl

end OfActive

/-! ## The name of an archive -/

theorem ne_dash_of_isId (h : isId operation = true) : ∀ c ∈ operation.toList, c ≠ '-' := by
  rintro c hc rfl
  rw [isId, Bool.and_eq_true, List.all_eq_true] at h
  exact absurd (h.2 '-' hc) (by decide)

theorem archiveName_archiveFile (hop : isId operation = true)
    (hsha : (O.sha256 bytes).length = 32) :
    archiveName (archiveFile O operation bytes) = .ok (operation, hex (O.sha256 bytes)) := by
  have hchars : (archiveFile O operation bytes).toList = "archive-".toList ++
      (operation.toList ++ '-' :: (hex (O.sha256 bytes)).toList ++ ".json".toList) := by
    simp [archiveFile, String.toList_append]
  have hbase : ((archiveFile O operation bytes).toList.dropPrefix? "archive-".toList).bind
      (fun v => v.dropSuffix? ".json".toList) =
        some (operation.toList ++ '-' :: (hex (O.sha256 bytes)).toList) := by
    rw [hchars, List.dropPrefix?_append_of_beq _ (beq_self_eq_true _), Option.bind_some,
      List.dropSuffix?_eq_some_iff]
    exact ⟨_, rfl, beq_self_eq_true _⟩
  have hdash : ∀ c ∈ operation.toList, (c != '-') = true := fun c hc =>
    bne_iff_ne.mpr (ne_dash_of_isId hop c hc)
  have htake : (operation.toList ++ '-' :: (hex (O.sha256 bytes)).toList).takeWhile (· != '-') =
      operation.toList := by
    rw [List.takeWhile_append_of_pos hdash]
    simp
  have hdrop : ((operation.toList ++ '-' :: (hex (O.sha256 bytes)).toList).dropWhile
      (· != '-')).drop 1 = (hex (O.sha256 bytes)).toList := by
    rw [List.dropWhile_append_of_pos hdash]
    simp
  simp only [archiveName, bind_eq_ok, okOr_eq_ok, refuseIf_eq_ok, pure_eq_ok]
  refine ⟨_, hbase, (), by simp, (), ?_, ?_⟩
  · rw [htake, hdrop, String.ofList_toList, String.ofList_toList, hop, isHash_hex hsha]
    rfl
  · rw [htake, hdrop, String.ofList_toList, String.ofList_toList]

theorem bytes_ne_nil (a : Archive ε) : a.bytes O ≠ [] := by
  intro h
  have hsize := congrArg List.length h
  simp [Archive.bytes, toVec, Archive.toJson, text] at hsize

/-! ## Reading the archives -/

/-- The operation in the name of an archive file. -/
def archivedOperation (file : String × Bytes) : String :=
  match archiveName file.1 with
  | .ok (operation, _) => operation
  | .error _ => ""

/-- Originals of the operation that are still on disk are those of the archive, and no other record
stands under an id of the archive. -/
structure Agrees (archive : Archive ε) (operation : String) (active : Table (Record ε)) :
    Prop where
  members : ∀ r ∈ archive.records, ∀ old, active[r.recordId]? = some old → old = r
  residual : ∀ {k r}, ofOperation active operation k r →
    (archive.records.foldl (fun t x => t.insert x.recordId x) (∅ : Table (Record ε)))[r.recordId]? =
      some r

theorem archivedOperation_eq {digest : String} (h : archiveName file.1 = .ok (operation, digest)) :
    archivedOperation file = operation := by
  rw [archivedOperation, h]

/-- What the loop of `archive_inventory` has found once it has read these files. -/
def sweepOf (active : Table (Record ε)) (past : List (String × Bytes)) : Sweep ε :=
  ⟨(past.map fun f => f.2.length).sum,
    past.foldl (fun t f => t.insert (archivedOperation f) f.1) ∅,
    active.filter fun _ r => !(past.map archivedOperation).contains r.operationId⟩

theorem get_sweepOf {past : List (String × Bytes)} : (sweepOf active past).active[k]? = some r ↔
      active[k]? = some r ∧ r.operationId ∉ past.map archivedOperation := by
  rw [sweepOf, Table.get_filter]
  simp only [Bool.not_eq_true', ← Bool.not_eq_true, List.contains_iff_mem]

theorem sweepOf_nil (active : Table (Record ε)) : sweepOf active [] = ⟨0, ∅, active⟩ := by
  refine congrArg (Sweep.mk 0 ∅) (Std.ExtTreeMap.ext_getElem? fun k => Option.ext fun r => ?_)
  exact get_sweepOf.trans (and_iff_left (by simp))

/-- What an interrupted sweep of the operation can leave of the records. -/
structure Residue (operation : String) (root left : Table (Record ε)) : Prop where
  sub : ∀ {k : String} {r : Record ε}, left[k]? = some r → root[k]? = some r
  others : ∀ {k : String} {r : Record ε}, root[k]? = some r → r.operationId ≠ operation →
    left[k]? = some r

theorem Agrees.anti (h : Agrees archive operation active)
    (hsub : ∀ {k : String} {r : Record ε}, active'[k]? = some r → active[k]? = some r) :
    Agrees archive operation active' :=
  ⟨fun r hr old hold => h.members r hr old (hsub hold), fun hr => h.residual ⟨hsub hr.1, hr.2⟩⟩

/-- The two runs of the loop, before and after the sweep, with `rest` ahead of the second. -/
structure Trails (operation : String) (left : Table (Record ε)) (rest : List (String × Bytes))
    (acc acc₁ : Sweep ε) : Prop where
  distinct : (rest.map archivedOperation).Nodup
  fresh : ∀ file ∈ rest, archivedOperation file ∉ acc₁.operations
  room : acc₁.total + (rest.map fun f => f.2.length).sum ≤ maxArchiveBytes
  residue : Residue operation acc.active acc₁.active
  sub : ∀ {k : String} {r : Record ε}, acc₁.active[k]? = some r → left[k]? = some r

/-- What the second run carries once it has read a file. -/
theorem Trails.next {acc acc₁ : Sweep ε} (h : Trails operation left (file :: rest) acc acc₁)
    (hres : Residue operation active (otherMap acc₁.active (archivedOperation file))) (total : Nat)
    (operations : Table String) :
    Trails operation left rest ⟨total, operations, active⟩
      ⟨acc₁.total + file.2.length, acc₁.operations.insert (archivedOperation file) file.1,
        otherMap acc₁.active (archivedOperation file)⟩ where
  distinct := (List.nodup_cons.mp h.distinct).2
  fresh := by
    intro f hf hin
    rw [Std.ExtTreeMap.mem_insert, Std.compare_eq_iff_eq] at hin
    rcases hin with he | hin
    · exact (List.nodup_cons.mp h.distinct).1 (List.mem_map.mpr ⟨f, hf, he.symm⟩)
    · exact h.fresh f (List.mem_cons_of_mem _ hf) hin
  room := by
    have := h.room
    rw [List.map_cons, List.sum_cons] at this
    dsimp only
    omega
  residue := hres
  sub hr := h.sub (get_otherMap.mp hr).1

/-- What is left of an operation that no archive on file names agrees with its own archive. -/
theorem agrees_ofActive {installation : String} (hkeyed : Keyed root)
    (hrecords : ∀ {k : String} {r : Record ε}, records[k]? = some r → root[k]? = some r)
    (hactive : ∀ {k r}, ofOperation root operation k r → records[k]? = some r)
    (hleft : Residue operation root left) :
    Agrees (Archive.ofActive installation operation records) operation left := by
  have hkeyed' : Keyed records := fun name r hr => hkeyed name r (hrecords hr)
  refine ⟨fun r hr old hold => ?_, fun {k r} hr => ?_⟩
  · obtain ⟨k, hk⟩ := mem_ofActive.mp hr
    have hroot := hrecords hk.1
    rw [← hkeyed' k r hk.1] at hroot
    exact Option.some.inj ((hleft.sub hold).symm.trans hroot)
  · have hr' : ofOperation root operation k r := ⟨hleft.sub hr.1, hr.2⟩
    rw [insertAll_ofActive installation operation hkeyed', get_subMap, hkeyed k r hr'.1]
    exact ⟨hactive hr', hr.2⟩

/-- The graph has no record of the operation, so only a start can join it. -/
theorem links_refuse (hnone : ∀ k r, ¬ ofOperation records record.operationId k r)
    (hpayload : ∀ scopes, record.payload ≠ .operationStarted scopes) :
    validateRecordLinks O (records.insert record.recordId record) ≠ .ok () := by
  intro h
  have hrecord : ofOperation (records.insert record.recordId record) record.operationId
      record.recordId record := ⟨Table.get_insert_self, rfl⟩
  obtain ⟨k, r, scopes, ⟨hr, hop⟩, hs⟩ := (validateRecordLinks_eq_ok.mp h).started hrecord
  rw [Table.get_insert] at hr
  split at hr
  · cases hr
    exact hpayload scopes hs
  · exact hnone k r ⟨hr, hop⟩

theorem admit_refused (hnone : ∀ k r, ¬ ofOperation records record.operationId k r)
    (hpayload : ∀ scopes, record.payload ≠ .operationStarted scopes) :
    (Store.admitRecord O M records record).Yields s fun r s' => s' = s ∧ ∃ e, r = .error e := by
  refine Mut.yields_bind_lift (fun e _ => ⟨rfl, e, rfl⟩) fun _ _ =>
    Mut.yields_bind_lift (fun e _ => ⟨rfl, e, rfl⟩) fun _ hlinks => ?_
  exact absurd hlinks (links_refuse hnone hpayload)

section Archives

variable [DecidableEq ε] {fromSlice : Bytes → Result (Archive ε)} {installation : String}
  {cached : String → Bool}

theorem projectResidual_eq_ok :
    projectResidual archive operation active = .ok active' ↔
      Agrees archive operation active ∧ active' = otherMap active operation := by
  have hmembers : (archive.records.any fun r => active[r.recordId]?.any fun old => old != r) = false ↔
      ∀ r ∈ archive.records, ∀ old, active[r.recordId]? = some old → old = r := by
    simp only [List.any_eq_false, Bool.not_eq_true, Option.any_eq_false_iff_get]
    refine forall₂_congr fun r _ => ?_
    cases active[r.recordId]? <;> simp
  have hresidual : ∀ original : Table (Record ε), ((Table.values active).any fun r =>
      r.operationId == operation && original[r.recordId]? != some r) = false ↔
        ∀ {k r}, ofOperation active operation k r → original[r.recordId]? = some r := by
    intro original
    simp only [List.any_eq_false, Bool.and_eq_true, beq_iff_eq, bne_iff_ne, not_and, not_not,
      Table.mem_values]
    constructor
    · exact fun h {k r} hr => h r ⟨k, hr.1⟩ hr.2
    · rintro h r ⟨k, hk⟩ hop
      exact h ⟨hk, hop⟩
  simp only [projectResidual, bind_eq_ok, refuseIf_eq_ok, pure_eq_ok, hmembers, hresidual]
  constructor
  · rintro ⟨_, hm, _, hr, rfl⟩
    exact ⟨⟨hm, hr⟩, rfl⟩
  · rintro ⟨⟨hm, hr⟩, rfl⟩
    exact ⟨(), hm, (), hr, rfl⟩

/-- The archive can be passed over or read, and agrees with what is left of its operation. -/
def Opens (O : Outside ε) (fromSlice : Bytes → Result (Archive ε)) (installation : String)
    (cached : String → Bool) (active : Table (Record ε)) (file : String × Bytes)
    (operation digest : String) : Prop :=
  ((∃ k r, ofOperation active operation k r) ∨ cached file.1 = false →
    ∃ archive, readArchive O fromSlice installation operation digest file.2 = .ok archive ∧
      ((∃ k r, ofOperation active operation k r) → Agrees archive operation active))

/-- **One archive of the inventory.** -/
theorem archiveStep_eq_ok {acc acc' : Sweep ε} :
    archiveStep O fromSlice installation cached acc file = .ok acc' ↔
      ∃ operation digest, archiveName file.1 = .ok (operation, digest) ∧ file.2 ≠ [] ∧
        file.2.length ≤ maxArchive ∧ acc.total + file.2.length ≤ maxArchiveBytes ∧
        operation ∉ acc.operations ∧
        Opens O fromSlice installation cached acc.active file operation digest ∧
        acc' = ⟨acc.total + file.2.length, acc.operations.insert operation file.1,
          otherMap acc.active operation⟩ := by
  have hsame : ∀ operation, (¬ ∃ k r, ofOperation acc.active operation k r) →
      acc.active = otherMap acc.active operation := by
    intro operation hnone
    refine Std.ExtTreeMap.ext_getElem? fun k => Option.ext fun r => ?_
    rw [get_otherMap]
    exact ⟨fun hr => ⟨hr, fun hop => hnone ⟨k, r, hr, hop⟩⟩, fun hr => hr.1⟩
  have hany : ∀ operation, ((Table.values acc.active).any fun r => r.operationId == operation) =
      true ↔ ∃ k r, ofOperation acc.active operation k r := by
    intro operation
    simp only [List.any_eq_true, Table.mem_values, beq_iff_eq]
    constructor
    · rintro ⟨r, ⟨k, hk⟩, hop⟩
      exact ⟨k, r, hk, hop⟩
    · rintro ⟨k, r, hk, hop⟩
      exact ⟨r, ⟨k, hk⟩, hop⟩
  unfold archiveStep
  simp only [bind_eq_ok, refuseIf_eq_ok, Bool.or_eq_false_iff, decide_eq_false_iff_not, Nat.not_lt,
    List.isEmpty_eq_false_iff, Prod.exists]
  refine exists₂_congr fun operation digest => ?_
  have hfresh : acc.operations.contains operation = false ↔ operation ∉ acc.operations := by
    rw [← Bool.not_eq_true, Std.ExtTreeMap.contains_iff_mem]
  by_cases hres : ∃ k r, ofOperation acc.active operation k r
  · have hread : (Table.values acc.active).any (fun r => r.operationId == operation) = true :=
      (hany operation).mpr hres
    simp only [hread, Bool.not_true, Bool.false_and, Bool.false_eq_true, if_false, if_true,
      bind_eq_ok, projectResidual_eq_ok, pure_eq_ok, hfresh, Opens, hres, true_or, forall_const]
    constructor
    · rintro ⟨hname, _, ⟨hne, hlen⟩, _, htotal, _, hop, archive, harchive, _, ⟨hagree, rfl⟩, rfl⟩
      exact ⟨hname, hne, hlen, htotal, hop, ⟨archive, harchive, hagree⟩, rfl⟩
    · rintro ⟨hname, hne, hlen, htotal, hop, ⟨archive, harchive, hagree⟩, rfl⟩
      exact ⟨hname, (), ⟨hne, hlen⟩, (), htotal, (), hop, archive, harchive, _, ⟨hagree, rfl⟩, rfl⟩
  · have hread : (Table.values acc.active).any (fun r => r.operationId == operation) = false := by
      rw [← Bool.not_eq_true, hany operation]
      exact hres
    rw [← hsame operation hres]
    cases hcached : cached file.1 with
    | true =>
      simp only [hread, hcached, Bool.not_false, Bool.true_and, if_true, pure_eq_ok, hfresh, Opens,
        hres, false_or, Bool.true_eq_false, false_implies, true_and]
      constructor
      · rintro ⟨hname, _, ⟨hne, hlen⟩, _, htotal, _, hop, rfl⟩
        exact ⟨hname, hne, hlen, htotal, hop, rfl⟩
      · rintro ⟨hname, hne, hlen, htotal, hop, rfl⟩
        exact ⟨hname, (), ⟨hne, hlen⟩, (), htotal, (), hop, rfl⟩
    | false =>
      simp only [hread, hcached, Bool.not_false, Bool.true_and, Bool.false_eq_true, if_false,
        bind_eq_ok, pure_eq_ok, hfresh, Opens, hres, false_or, forall_const, false_implies,
        and_true]
      constructor
      · rintro ⟨hname, _, ⟨hne, hlen⟩, _, htotal, _, hop, archive, harchive, rfl⟩
        exact ⟨hname, hne, hlen, htotal, hop, ⟨archive, harchive⟩, rfl⟩
      · rintro ⟨hname, hne, hlen, htotal, hop, ⟨archive, harchive⟩, rfl⟩
        exact ⟨hname, (), ⟨hne, hlen⟩, (), htotal, (), hop, archive, harchive, rfl⟩

/-- **The loop over the archives**: their operations are different, and their records leave the
active map. -/
theorem archiveSteps_eq_ok {files : List (String × Bytes)} {acc : Sweep ε}
    (h : files.foldlM (archiveStep O fromSlice installation cached) ⟨0, ∅, active⟩ = .ok acc) :
    (files.map archivedOperation).Nodup ∧ acc = sweepOf active files := by
  rw [← sweepOf_nil] at h
  have hloop := pairwise_of_foldlM (S := sweepOf active) (P := fun _ => True)
    (R := fun x y => archivedOperation x ≠ archivedOperation y) (fun past x s hs => ?_) files [] acc
    List.Pairwise.nil h
  · rw [List.nil_append] at hloop
    exact ⟨List.pairwise_map.mpr hloop.2.1, hloop.2.2⟩
  · obtain ⟨operation, digest, hname, -, -, -, hfresh, -, rfl⟩ := archiveStep_eq_ok.mp hs
    rw [← archivedOperation_eq hname] at hfresh ⊢
    rw [sweepOf, Table.mem_insertAll] at hfresh
    refine ⟨⟨trivial, fun y hy he => hfresh (Or.inl (List.mem_map.mpr ⟨y, hy, he⟩))⟩, ?_⟩
    have hactive : otherMap (sweepOf active past).active (archivedOperation x) =
        (sweepOf active (past ++ [x])).active := by
      refine Std.ExtTreeMap.ext_getElem? fun k => Option.ext fun r => ?_
      rw [get_otherMap, get_sweepOf, get_sweepOf]
      simp only [List.map_append, List.map_cons, List.map_nil, List.mem_append, List.mem_singleton,
        not_or, and_assoc, ne_eq]
    rw [hactive]
    simp [sweepOf]

/-! ## Reading them again after the sweep -/

/-- An archive that the first run has read. -/
theorem Trails.step {acc acc' acc₁ : Sweep ε} (h : Trails operation left (file :: rest) acc acc₁)
    (hstep : archiveStep O fromSlice installation (fun _ => false) acc file = .ok acc') :
    ∃ acc₁', archiveStep O fromSlice installation cached acc₁ file = .ok acc₁' ∧
      Trails operation left rest acc' acc₁' := by
  obtain ⟨archived, digest, hname, hne, hlen, -, -, hopens, rfl⟩ := archiveStep_eq_ok.mp hstep
  obtain rfl := archivedOperation_eq hname
  have hroom : acc₁.total + file.2.length ≤ maxArchiveBytes := by
    have := h.room
    rw [List.map_cons, List.sum_cons] at this
    omega
  obtain ⟨archive, hread, hagrees⟩ := hopens (Or.inr rfl)
  refine ⟨_, archiveStep_eq_ok.mpr ⟨_, digest, hname, hne, hlen, hroom,
    h.fresh file List.mem_cons_self, ?_, rfl⟩, h.next ?_ _ _⟩
  · refine fun _ => ⟨archive, hread, ?_⟩
    rintro ⟨k, r, hr⟩
    exact (hagrees ⟨k, r, h.residue.sub hr.1, hr.2⟩).anti h.residue.sub
  · refine ⟨fun hr => ?_, fun hr hop => ?_⟩
    · obtain ⟨hr, hne⟩ := get_otherMap.mp hr
      exact get_otherMap.mpr ⟨h.residue.sub hr, hne⟩
    · obtain ⟨hr, hne⟩ := get_otherMap.mp hr
      exact get_otherMap.mpr ⟨h.residue.others hr hop, hne⟩

/-- The archive that was added, whatever is left of its operation. -/
theorem Trails.added {acc acc₁ : Sweep ε} {digest : String}
    (h : Trails operation left (file :: rest) acc acc₁) (cached : String → Bool)
    (hname : archiveName file.1 = .ok (operation, digest)) (hne : file.2 ≠ [])
    (hlen : file.2.length ≤ maxArchive)
    (hread : readArchive O fromSlice installation operation digest file.2 = .ok archive)
    (hagrees : Agrees archive operation left) :
    ∃ acc₁', archiveStep O fromSlice installation cached acc₁ file = .ok acc₁' ∧
      Trails operation left rest acc acc₁' := by
  obtain rfl := archivedOperation_eq hname
  have hroom : acc₁.total + file.2.length ≤ maxArchiveBytes := by
    have := h.room
    rw [List.map_cons, List.sum_cons] at this
    omega
  refine ⟨_, archiveStep_eq_ok.mpr ⟨_, digest, hname, hne, hlen, hroom,
    h.fresh file List.mem_cons_self, fun _ => ⟨archive, hread, fun _ => hagrees.anti h.sub⟩, rfl⟩,
    h.next ?_ acc.total acc.operations⟩
  exact ⟨fun hr => h.residue.sub (get_otherMap.mp hr).1,
    fun hr hop => get_otherMap.mpr ⟨h.residue.others hr hop, hop⟩⟩

/-- **The archives on file are read after the sweep as before it**, with the new one in its place
among them. -/
theorem archiveSteps_residue (cached : String → Bool) (file : String × Bytes)
    {before after : List (String × Bytes)} {acc : Sweep ε} {digest : String}
    (h : (before ++ after).foldlM (archiveStep O fromSlice installation fun _ => false)
      ⟨0, ∅, root⟩ = .ok acc) (hnew : operation ∉ (before ++ after).map archivedOperation)
    (hname : archiveName file.1 = .ok (operation, digest)) (hne : file.2 ≠ [])
    (hlen : file.2.length ≤ maxArchive)
    (hread : readArchive O fromSlice installation operation digest file.2 = .ok archive)
    (hagrees : Agrees archive operation left) (hleft : Residue operation root left)
    (hroom : file.2.length + ((before ++ after).map fun f => f.2.length).sum ≤ maxArchiveBytes) :
    ∃ acc₁, (before ++ file :: after).foldlM (archiveStep O fromSlice installation cached)
      ⟨0, ∅, left⟩ = .ok acc₁ := by
  obtain ⟨hnodup, -⟩ := archiveSteps_eq_ok h
  have hstart : Trails operation left (before ++ file :: after) ⟨0, ∅, root⟩ ⟨0, ∅, left⟩ := by
    refine ⟨?_, fun f _ hf => absurd hf Std.ExtTreeMap.not_mem_empty, ?_, hleft, fun hr => hr⟩
    · rw [List.map_append, List.map_cons, archivedOperation_eq hname]
      refine List.nodup_middle.mpr (List.nodup_cons.mpr ?_)
      rw [← List.map_append]
      exact ⟨hnew, hnodup⟩
    · simp only [List.map_append, List.sum_append, List.map_cons, List.sum_cons] at hroom ⊢
      omega
  rw [List.foldlM_append, bind_eq_ok] at h
  obtain ⟨mid, hmid, hend⟩ := h
  have hstep : ∀ f rest (s s' t : Sweep ε), Trails operation left (f :: rest) s t →
      archiveStep O fromSlice installation (fun _ => false) s f = .ok s' →
      ∃ t', archiveStep O fromSlice installation cached t f = .ok t' ∧
        Trails operation left rest s' t' := fun f rest s s' t hR hs => hR.step hs
  obtain ⟨mid₁, hmid₁, htrails⟩ := foldlM_lockstep hstep hstart hmid
  obtain ⟨next, hnext, htrails⟩ := htrails.added cached hname hne hlen hread hagrees
  rw [← List.append_nil after] at htrails
  obtain ⟨acc₁, hacc₁, -⟩ := foldlM_lockstep hstep htrails hend
  refine ⟨acc₁, ?_⟩
  rw [List.foldlM_append, bind_eq_ok]
  refine ⟨mid₁, hmid₁, ?_⟩
  rw [List.foldlM_cons, bind_eq_ok]
  exact ⟨next, hnext, hacc₁⟩

/-- The archives that passed, by operation. -/
theorem archiveInventory_eq_ok {archives : Table Bytes} {operations : Table String}
    (h : archiveInventory O fromSlice installation cached archives active =
      .ok (operations, active')) :
    archives.toList.foldlM (archiveStep O fromSlice installation cached) ⟨0, ∅, active⟩ =
        .ok (sweepOf active archives.toList) ∧
      (archives.toList.map archivedOperation).Nodup ∧
      operations = (sweepOf active archives.toList).operations ∧
      active' = (sweepOf active archives.toList).active := by
  simp only [archiveInventory, bind_eq_ok, pure_eq_ok, Prod.mk.injEq] at h
  obtain ⟨_, -, found, hfound, rfl, rfl⟩ := h
  obtain ⟨hnodup, rfl⟩ := archiveSteps_eq_ok hfound
  exact ⟨hfound, hnodup, rfl, rfl⟩

/-! ## The sweep -/

/-- The total that `Store::archive` counts is that of the archives on file. -/
theorem archives_total {archives : Table Bytes} {operations : Table String}
    (h : archiveInventory O fromSlice installation cached archives active =
      .ok (operations, active')) :
    operations.size = archives.size ∧
      ((Table.values operations).map fun name => ((archives[name]?).getD []).length).sum =
        (archives.toList.map fun f => f.2.length).sum := by
  obtain ⟨-, hnodup, rfl, -⟩ := archiveInventory_eq_ok h
  have hperm := Table.toList_insertAll_perm (fun f : String × Bytes => f.1) hnodup
  constructor
  · have := hperm.length_eq
    rwa [List.length_map, Std.ExtTreeMap.length_toList, Std.ExtTreeMap.length_toList] at this
  · have hvalues : (Table.values (sweepOf active archives.toList).operations).Perm
        (archives.toList.map Prod.fst) := by
      refine (hperm.map Prod.snd).trans (List.Perm.of_eq ?_)
      rw [List.map_map]
      rfl
    rw [(hvalues.map _).sum_nat, List.map_map]
    refine congrArg List.sum (List.map_congr_left fun f hf => ?_)
    rw [Function.comp, Table.mem_toList_iff_get.mp hf]
    rfl

/-- **The write of an archive**: one archive more within the quota, or nothing. -/
theorem archive_yields :
    (Store.archive O fromSlice M archive bytes).Yields s fun _ s' => s' = s ∨
      (s' = { s with archives := s.archives.insert (archiveFile O archive.operationId bytes) bytes } ∧
        s.archives[archiveFile O archive.operationId bytes]? = none ∧
        checkArchiveQuota O fromSlice M s bytes = .ok ()) := by
  refine Mut.yields_bind_lift (fun _ _ => Or.inl rfl) fun _ _ => Mut.yields_bind_get
    (Mut.yields_bind_lift (fun _ _ => Or.inl rfl) fun retained _ =>
      Mut.yields_bind_lift (fun _ _ => Or.inl rfl) fun _ _ => ?_)
  cases hname : s.archives[archiveFile O archive.operationId bytes]? with
  | some present =>
    simp only [hname]
    exact Mut.yields_lift (Or.inl rfl)
  | none =>
    simp only [hname]
    refine Mut.yields_bind_lift (fun _ _ => Or.inl rfl) fun _ hquota =>
      Mut.yields_bind_lift (fun _ _ => Or.inl rfl) fun _ _ => Mut.yields_bind_set
        (Mut.yields_lift (Or.inr ⟨rfl, trivial, hquota⟩))

/-- The write of an archive that nothing refuses. -/
theorem archive_exec (hlock : M.lock = .ok ())
    (hinput : s.retentionInput O fromSlice M archive.operationId = .ok archive)
    (hnone : s.archives[archiveFile O archive.operationId bytes]? = none)
    (hquota : checkArchiveQuota O fromSlice M s bytes = .ok ()) (hpublish : M.publish = .ok ()) :
    ((Store.archive O fromSlice M archive bytes).exec s).2 =
      { s with archives := s.archives.insert (archiveFile O archive.operationId bytes) bytes } := by
  have hyields : (Store.archive O fromSlice M archive bytes).Yields s fun _ s' => s' =
      { s with archives := s.archives.insert (archiveFile O archive.operationId bytes) bytes } := by
    refine Mut.yields_bind_lift (fun e he => ?_) fun _ _ => Mut.yields_bind_get
      (Mut.yields_bind_lift (fun e he => ?_) fun retained hretained =>
        Mut.yields_bind_lift (fun e he => ?_) fun _ _ => ?_)
    · rw [hlock] at he
      cases he
    · rw [hinput] at he
      cases he
    · rw [hinput] at hretained
      cases hretained
      simp [refuseIf] at he
    · simp only [hnone]
      refine Mut.yields_bind_lift (fun e he => ?_) fun _ _ =>
        Mut.yields_bind_lift (fun e he => ?_) fun _ _ => Mut.yields_bind_set (Mut.yields_lift rfl)
      · rw [hquota] at he
        cases he
      · rw [hpublish] at he
        cases he
  exact hyields

/-- What the store answers while an operation is archived, whatever is left of its records. -/
structure Swept (O : Outside ε) (fromSlice : Bytes → Result (Archive ε)) (operation : String)
    (records : Table (Record ε)) (s : Store ε) : Prop where
  /-- The inventory of the archives projects exactly the operation away. -/
  projected : ∀ cached, ∃ operations, archiveInventory O fromSlice s.installation cached s.archives
    s.root = .ok (operations, otherMap records operation)
  /-- The graph that remains passes the link check. -/
  links : validateRecordLinks O (otherMap records operation) = .ok ()
  /-- Nothing but a start can be appended to the operation. -/
  refuses : ∀ M recordId payload, (∀ scopes, payload ≠ .operationStarted scopes) →
    (Store.append O fromSlice M recordId operation payload).Yields s fun r s' =>
      s' = s ∧ ∃ e, r = .error e
  /-- Nor can a decision. -/
  undecided : ∀ M batch, (Store.decisions O fromSlice M operation batch).Yields s fun r s' =>
    s' = s ∧ (batch ≠ [] → ∃ e, r = .error e)

theorem inventory_projected {found : Table (Record ε)}
    (h : ∀ cached, ∃ operations, archiveInventory O fromSlice s.installation cached s.archives
      s.root = .ok (operations, records)) (hfound : s.inventory O fromSlice M = .ok found) :
    found = records := by
  obtain ⟨-, -, ⟨operations, hactive⟩, -⟩ := inventory_eq_ok hfound
  obtain ⟨operations', hactive'⟩ := h M.cached
  rw [hactive'] at hactive
  exact (Prod.ext_iff.mp (Except.ok.inj hactive)).2.symm

theorem swept_of_projected
    (h : ∀ cached, ∃ operations, archiveInventory O fromSlice s.installation cached s.archives
      s.root = .ok (operations, otherMap records operation))
    (hlinks : validateRecordLinks O (otherMap records operation) = .ok ()) :
    Swept O fromSlice operation records s := by
  have hnone : ∀ k r, ¬ ofOperation (otherMap records operation) operation k r := fun k r hr =>
    (get_otherMap.mp hr.1).2 hr.2
  refine ⟨h, hlinks, fun M recordId payload hpayload => ?_, fun M batch => ?_⟩
  · refine Mut.yields_bind_lift (fun e _ => ⟨rfl, e, rfl⟩) fun _ _ => Mut.yields_bind_get
      (Mut.yields_bind_lift (fun e _ => ⟨rfl, e, rfl⟩) fun found hfound =>
        Mut.yields_bind_lift (fun e _ => ⟨rfl, e, rfl⟩) fun recordId _ => Mut.yields_bind ?_)
    rw [inventory_projected h hfound]
    refine (admit_refused hnone hpayload).mono ?_
    rintro r s' ⟨rfl, e, rfl⟩
    exact ⟨rfl, e, rfl⟩
  · refine Mut.yields_bind_lift (fun e _ => ⟨rfl, fun _ => ⟨e, rfl⟩⟩) fun _ _ => Mut.yields_bind_get
      (Mut.yields_bind_lift (fun e _ => ⟨rfl, fun _ => ⟨e, rfl⟩⟩) fun found hfound =>
        Mut.yields_bind ?_)
    rw [inventory_projected h hfound]
    cases batch with
    | nil => exact ⟨rfl, fun hne => absurd rfl hne⟩
    | cons next rest =>
      rw [List.foldlM_cons]
      refine Mut.yields_bind (Mut.yields_bind ((admit_refused hnone ?_).mono ?_))
      · exact fun scopes hs => by cases hs
      · rintro r s' ⟨rfl, e, rfl⟩
        exact ⟨rfl, fun _ => ⟨e, rfl⟩⟩

/-- **After the archive is written**, from any part of the operation's records. -/
theorem swept_of_archive {s s' : Store ε} {M M' : Storage}
    (hsha : ∀ bytes, (O.sha256 bytes).length = 32) (hcache : M.cached = fun _ => false)
    (hinventory : s.inventory O fromSlice M = .ok records) {outcome : OperationOutcome}
    (hr : ofOperation records operation k r) (hdone : r.payload = .operationFinished outcome)
    (harchive : archive = Archive.ofActive s.installation operation records)
    (hparse : fromSlice (archive.bytes O) = .ok archive)
    (hexec : ((Store.archive O fromSlice M' archive (archive.bytes O)).exec s).2 = s')
    (hwritten : archiveFile O operation (archive.bytes O) ∈ s'.archives)
    {left : Table (Record ε)} (hleft : Residue operation s'.root left) :
    Swept O fromSlice operation records { s' with root := left } := by
  obtain ⟨hfiled, hsize, ⟨operations, hactive⟩, hlinks⟩ := inventory_eq_ok hinventory
  rw [hcache] at hactive
  obtain ⟨hloop, -, -, hrecords⟩ := archiveInventory_eq_ok hactive
  have hget : ∀ {k : String} {r : Record ε}, records[k]? = some r ↔ s.root[k]? = some r ∧
      r.operationId ∉ s.archives.toList.map archivedOperation := fun {k r} => by
    rw [hrecords, get_sweepOf]
  have hkeyed : Keyed s.root := fun name x hx => (hfiled name x hx).recordId
  have hrecordsKeyed : Keyed records := fun name x hx => hkeyed name x (hget.mp hx).1
  have hnew : operation ∉ s.archives.toList.map archivedOperation := by
    rw [← hr.2]
    exact (hget.mp hr.1).2
  have hop : isId operation = true := by
    rw [← hr.2]
    exact (identity_of_validate (hfiled k r (hget.mp hr.1).1).valid).2
  have hvalid : archive.validate O = .ok () := by
    rw [harchive]
    refine validate_ofActive (fun k r hr => hfiled k r (hget.mp hr).1) ?_ hlinks hr hdone
    rw [hrecords]
    exact Std.ExtTreeMap.size_filter_le_size.trans hsize
  have hname := archiveName_archiveFile (O := O) hop (hsha (archive.bytes O))
  have hfile : archive.operationId = operation := by rw [harchive]; rfl
  have hyields : (Store.archive O fromSlice M' archive (archive.bytes O)).Yields s _ :=
    archive_yields
  unfold Mut.Yields at hyields
  rw [hexec, hfile] at hyields
  rcases hyields with rfl | ⟨rfl, hnone, hquota⟩
  · -- an archive of that name would have taken the operation out of the graph
    obtain ⟨present, hpresent⟩ := Table.mem_iff_get.mp hwritten
    have hmem : (archiveFile O operation (archive.bytes O), present) ∈ s'.archives.toList :=
      Table.mem_toList_iff_get.mpr hpresent
    exact absurd (List.mem_map.mpr ⟨_, hmem, archivedOperation_eq hname⟩) hnew
  · simp only [checkArchiveQuota, bind_eq_ok, refuseIf_eq_ok, Bool.or_eq_false_iff,
      decide_eq_false_iff_not, Nat.not_lt, Nat.not_le] at hquota
    obtain ⟨active, -, ⟨existing, _⟩, hexisting, _, ⟨hcount, htotal⟩, _, -, hlen⟩ := hquota
    obtain ⟨hcounted, hsum⟩ := archives_total hexisting
    obtain ⟨before, after, hfiles, hfiles'⟩ :=
      Table.toList_insert_split (v := archive.bytes O) hnone
    have hread : readArchive O fromSlice s.installation operation
        (hex (O.sha256 (archive.bytes O))) (archive.bytes O) = .ok archive := by
      simp only [readArchive, bind_eq_ok, refuseIf_eq_ok, pure_eq_ok, bne_self_eq_false, hparse,
        hvalid, Except.ok.injEq, exists_eq_left', Bool.or_false, hfile]
      rw [harchive]
      simp [Archive.ofActive]
    have hagrees : Agrees archive operation left := by
      rw [harchive]
      exact agrees_ofActive hkeyed (fun hr => (hget.mp hr).1)
        (fun hr => hget.mpr ⟨hr.1, hr.2 ▸ hnew⟩) hleft
    rw [hfiles] at hloop hnew
    rw [hsum, hfiles] at htotal
    refine swept_of_projected (fun cached => ?_)
      (validate_of_agree hrecordsKeyed hlinks (· ≠ operation) get_otherMap).2
    obtain ⟨acc, hacc⟩ := archiveSteps_residue cached
      (archiveFile O operation (archive.bytes O), archive.bytes O) hloop hnew hname
      (bytes_ne_nil archive) hlen hread hagrees hleft htotal
    obtain ⟨-, rfl⟩ := archiveSteps_eq_ok hacc
    refine ⟨(sweepOf left (before ++ (archiveFile O operation (archive.bytes O),
      archive.bytes O) :: after)).operations, ?_⟩
    simp only [archiveInventory, bind_eq_ok, refuseIf_eq_ok, decide_eq_false_iff_not, Nat.not_lt,
      pure_eq_ok]
    refine ⟨(), ?_, _, by rw [hfiles']; exact hacc, Prod.ext rfl ?_⟩
    · refine (Std.ExtTreeMap.size_insert_le).trans ?_
      dsimp only at hcount
      omega
    · refine Std.ExtTreeMap.ext_getElem? fun k => Option.ext fun r => ?_
      have hnamed : archivedOperation (archiveFile O operation (archive.bytes O), archive.bytes O) =
          operation := archivedOperation_eq hname
      rw [get_sweepOf, get_otherMap, hget, hfiles]
      simp only [List.map_append, List.map_cons, List.mem_append, List.mem_cons, hnamed, not_or]
      constructor
      · rintro ⟨hr, hbefore, hne, hafter⟩
        exact ⟨⟨hleft.sub hr, hbefore, hafter⟩, hne⟩
      · rintro ⟨⟨hr, hbefore, hafter⟩, hne⟩
        exact ⟨hleft.others hr hne, hbefore, hne, hafter⟩

/-- Unlinking one of the originals leaves another part of them. -/
theorem unlinkArchived_yields (hkeyed : Keyed root)
    (hrecords : ∀ {k : String} {r : Record ε}, records[k]? = some r → root[k]? = some r)
    (hroot : s.root = left) (hleft : Residue operation root left) :
    (Store.unlinkArchived O fromSlice M record
      (Archive.ofActive installation operation records)).Yields s fun _ s' =>
        s'.installation = s.installation ∧ s'.archives = s.archives ∧
          Residue operation root s'.root := by
  have hsame : s.installation = s.installation ∧ s.archives = s.archives ∧
      Residue operation root s.root := ⟨rfl, rfl, hroot ▸ hleft⟩
  refine Mut.yields_bind_lift (fun _ _ => hsame) fun _ _ => Mut.yields_bind_get
    (Mut.yields_bind_lift (fun _ _ => hsame) fun retained _ =>
      Mut.yields_bind_lift (fun _ _ => hsame) fun _ hmember =>
        Mut.yields_bind_lift (fun _ _ => hsame) fun _ _ => ?_)
  rw [refuseIf_eq_ok, Bool.or_eq_false_iff, Bool.not_eq_false', List.contains_iff_mem] at hmember
  obtain ⟨k, hk⟩ := mem_ofActive.mp hmember.2
  have hid : root[record.recordId]? = some record := by
    rw [hkeyed k record (hrecords hk.1)]
    exact hrecords hk.1
  cases hpresent : s.root[record.recordId]? with
  | none => exact Mut.yields_pure hsame
  | some present =>
    refine Mut.yields_bind_lift (fun _ _ => hsame) fun _ _ =>
      Mut.yields_bind_lift (fun _ _ => hsame) fun _ _ => Mut.yields_bind_set
        (Mut.yields_lift ⟨rfl, rfl, ⟨fun {a r} hr => ?_, fun {a r} hr hop => ?_⟩⟩)
    · dsimp only at hr
      rw [Table.get_erase] at hr
      split at hr
      · cases hr
      · rw [hroot] at hr
        exact hleft.sub hr
    · dsimp only
      rw [Table.get_erase, if_neg, hroot]
      · exact hleft.others hr hop
      · rintro rfl
        rw [hid] at hr
        cases hr
        exact hop hk.2

/-- **Validation is local, and retention survives an interruption.** The link check accepts a map of
records under their ids exactly when it accepts the records of each operation. In a store that
passes its inventory with every archive read in full, the records of a closed operation form a valid
archive; once that archive is on file, whatever the unlinking has left of its originals, the store
answers as `Swept` says, and the next unlinking leaves another such state. -/
theorem retention_interrupted (O : Outside ε) (fromSlice : Bytes → Result (Archive ε))
    (hsha : ∀ bytes, (O.sha256 bytes).length = 32) :
    (∀ records : Table (Record ε), Keyed records → (validateRecordLinks O records = .ok () ↔
      ∀ operation, validateRecordLinks O (subMap records operation) = .ok ())) ∧
    ∀ (s : Store ε) (M : Storage) (records : Table (Record ε)), M.cached = (fun _ => false) →
      s.inventory O fromSlice M = .ok records → ∀ operation k r outcome,
      ofOperation records operation k r → r.payload = .operationFinished outcome →
      ∀ archive, archive = Archive.ofActive s.installation operation records →
        archive.validate O = .ok () ∧
        (fromSlice (archive.bytes O) = .ok archive → ∀ M' s',
          ((Store.archive O fromSlice M' archive (archive.bytes O)).exec s).2 = s' →
          archiveFile O operation (archive.bytes O) ∈ s'.archives →
          ∀ left, Residue operation s'.root left →
            Swept O fromSlice operation records { s' with root := left } ∧
            ∀ M'' record, (Store.unlinkArchived O fromSlice M'' record archive).Yields
              { s' with root := left } fun _ s'' => s''.installation = s'.installation ∧
                s''.archives = s'.archives ∧ Residue operation s'.root s''.root) := by
  refine ⟨fun records hkeyed => validateRecordLinks_local hkeyed, ?_⟩
  intro s M records hcache hinventory operation k r outcome hr hdone archive harchive
  obtain ⟨hfiled, hsize, ⟨operations, hactive⟩, hlinks⟩ := inventory_eq_ok hinventory
  obtain ⟨-, -, -, hrecords⟩ := archiveInventory_eq_ok hactive
  have hsub : ∀ {k : String} {r : Record ε}, records[k]? = some r → s.root[k]? = some r :=
    fun {k r} hr => by
      rw [hrecords, get_sweepOf] at hr
      exact hr.1
  constructor
  · rw [harchive]
    refine validate_ofActive (fun k r hr => hfiled k r (hsub hr)) ?_ hlinks hr hdone
    rw [hrecords]
    exact Std.ExtTreeMap.size_filter_le_size.trans hsize
  · intro hparse M' s' hexec hwritten left hleft
    refine ⟨swept_of_archive hsha hcache hinventory hr hdone harchive hparse hexec hwritten hleft,
      fun M'' record => ?_⟩
    have hroot : s'.root = s.root := by
      have hyields : (Store.archive O fromSlice M' archive (archive.bytes O)).Yields s _ :=
        archive_yields
      unfold Mut.Yields at hyields
      rw [hexec] at hyields
      rcases hyields with rfl | ⟨rfl, -, -⟩
      · rfl
      · rfl
    rw [harchive]
    refine unlinkArchived_yields (fun name x hx => ?_) (fun hr => ?_) rfl hleft
    · rw [hroot] at hx
      exact (hfiled name x hx).recordId
    · rw [hroot]
      exact hsub hr

end Archives

/-! ## A closed operation -/

/-- Records of a few hundred bytes fit. -/
theorem recordSteps_of_filed {installation : String} : ∀ {files : List (String × Record ε)}
    (acc : Nat × Table (Record ε)), (∀ e ∈ files, Filed O installation e.1 e.2 ∧
      (e.2.bytes O).length ≤ 10000) → acc.1 + 10000 * files.length ≤ maxBytes →
      ∃ n, files.foldlM (recordStep O installation) acc =
        .ok (n, files.foldl (fun t e => t.insert e.1 e.2) acc.2)
  | [], acc, _, _ => ⟨acc.1, rfl⟩
  | e :: files, acc, hfiled, hroom => by
    obtain ⟨⟨h, hlength⟩, hrest⟩ := List.forall_mem_cons.mp hfiled
    rw [List.length_cons] at hroom
    have hstep : recordStep O installation acc e =
        .ok (acc.1 + (e.2.bytes O).length, acc.2.insert e.1 e.2) := by
      simp only [recordStep, bind_eq_ok, refuseIf_eq_ok, pure_eq_ok, decide_eq_false_iff_not,
        Nat.not_lt, Bool.not_eq_false', Bool.or_eq_false_iff, bne_eq_false_iff_eq]
      refine ⟨(), h.isId, (), hlength.trans (by decide), (), h.valid, (),
        ⟨h.recordId, h.installation⟩, (), by omega, trivial⟩
    obtain ⟨n, hn⟩ := recordSteps_of_filed (acc.1 + (e.2.bytes O).length,
      acc.2.insert e.1 e.2) hrest (by dsimp only; omega)
    exact ⟨n, bind_eq_ok.mpr ⟨_, hstep, hn⟩⟩

section Small

variable [DecidableEq ε] {fromSlice : Bytes → Result (Archive ε)}

theorem inventory_of_filed (hsize : s.root.size ≤ 100)
    (hfiled : ∀ e ∈ s.root.toList, Filed O s.installation e.1 e.2 ∧ (e.2.bytes O).length ≤ 10000)
    (harchives : s.archives = ∅) (hchildren : M.children = .ok ())
    (hlinks : validateRecordLinks O s.root = .ok ()) :
    s.inventory O fromSlice M = .ok s.root := by
  obtain ⟨n, hread⟩ := recordSteps_of_filed (0, ∅) hfiled (by
    rw [Std.ExtTreeMap.length_toList, maxBytes]
    omega)
  rw [Table.insertAll_toList] at hread
  simp only [Store.inventory, bind_eq_ok, refuseIf_eq_ok, pure_eq_ok, decide_eq_false_iff_not,
    Nat.not_lt, harchives]
  exact ⟨(), hsize.trans (by decide), _, hread, (), hchildren, (∅, s.root), archiveInventory_empty,
    (), hlinks, rfl⟩

/-- The first archive of a store, on a machine with room. -/
theorem archive_first (hinventory : s.inventory O fromSlice M = .ok s.root)
    (harchives : s.archives = ∅)
    (hvalid : (Archive.ofActive s.installation operation s.root).validate O = .ok ())
    (hlength : bytes.length ≤ 20000) (hlock : M.lock = .ok ()) (hpublish : M.publish = .ok ())
    (hspace : M.space = some (1000000, 4096)) :
    ((Store.archive O fromSlice M (Archive.ofActive s.installation operation s.root) bytes).exec
      s).2 = { s with archives := s.archives.insert (archiveFile O operation bytes) bytes } := by
  refine archive_exec hlock ?_ ?_ ?_ hpublish
  · simp only [Store.retentionInput, bind_eq_ok, harchives]
    refine ⟨_, hinventory, (∅, s.root), archiveInventory_empty, ?_⟩
    simp only [Std.ExtTreeMap.getElem?_empty, bind_eq_ok, pure_eq_ok]
    exact ⟨(), hvalid, rfl⟩
  · rw [harchives]
    exact Std.ExtTreeMap.getElem?_empty
  · simp only [checkArchiveQuota, bind_eq_ok, refuseIf_eq_ok, harchives, hspace]
    refine ⟨_, hinventory, (∅, s.root), archiveInventory_empty, (), ?_, (), ?_, ?_⟩
    · have hvalues : Table.values (∅ : Table String) = [] := rfl
      simp [hvalues, maxArchives, maxArchiveBytes]
      omega
    · simp only [checkSpace, bind_eq_ok, refuseIf_eq_ok]
      have hproduct : (1000000 : UInt64).toNat * (4096 : UInt64).toNat = 4096000000 := by decide
      simp only [hproduct, decide_eq_false_iff_not]
      exact ⟨(), by decide, by omega⟩
    · simp only [maxArchive, gt_iff_lt, decide_eq_false_iff_not, Nat.not_lt]
      omega

end Small

/-- An outside where every digest is zero and there is no typed evidence. -/
def Outside.zero : Outside Empty :=
  ⟨fun _ => zeros 32, refuse "no approved policy", Empty.elim, Empty.elim, Empty.elim⟩

/-- A machine that answers every request. -/
def Storage.ready : Storage :=
  ⟨.ok (), .ok (), fun _ => false, some (1000000, 4096), .ok (), .ok ()⟩

def closedOperation : String := repeatText "c" 32

/-- An operation that was started and completed, without effects. -/
def closedStart : Record Empty :=
  ⟨1, repeatText "a" 64, repeatText "0" 32, closedOperation, .operationStarted
    [("grant", ⟨.read, ⟨.file, "report", 1, repeatText "1" 64⟩, 1, 0, 1⟩)]⟩

def closedEnd : Record Empty :=
  ⟨1, repeatText "a" 64, repeatText "1" 32, closedOperation, .operationFinished .completed⟩

/-- The start of another operation. -/
def openStart : Record Empty :=
  { closedStart with recordId := repeatText "2" 32, operationId := repeatText "d" 32 }

def closedRecords : List (Record Empty) := [closedStart, closedEnd, openStart]

def closedStore : Store Empty :=
  ⟨repeatText "a" 64, closedRecords.foldl (fun t r => t.insert r.recordId r) ∅, ∅⟩

def closedArchive : Archive Empty :=
  Archive.ofActive closedStore.installation closedOperation closedStore.root

theorem toList_closedStore :
    closedStore.root.toList = closedRecords.map fun r => (r.recordId, r) := by
  decide +kernel

theorem get_closedStore {r : Record Empty} (hr : r ∈ closedRecords) :
    closedStore.root[r.recordId]? = some r := by
  refine Table.mem_toList_iff_get (e := (r.recordId, r)).mp ?_
  rw [toList_closedStore]
  exact List.mem_map_of_mem hr

theorem filed_closedRecords : (∀ r ∈ closedRecords, r.validate .zero = .ok () ∧
      isId r.recordId = true ∧ r.installation = repeatText "a" 64 ∧
      sizeBound (r.toJson .zero) ≤ 10000) ∧
    validateRecordLinks .zero closedStore.root = .ok () := by
  decide +kernel

theorem inventory_closedStore (fromSlice : Bytes → Result (Archive Empty)) :
    closedStore.inventory .zero fromSlice .ready = .ok closedStore.root := by
  refine inventory_of_filed ?_ (fun e he => ?_) rfl rfl filed_closedRecords.2
  · rw [← Std.ExtTreeMap.length_toList, toList_closedStore]
    decide
  · rw [toList_closedStore] at he
    obtain ⟨r, hr, rfl⟩ := List.mem_map.mp he
    obtain ⟨hvalid, hid, hinstallation, hbound⟩ := filed_closedRecords.1 r hr
    exact ⟨⟨hid, hvalid, rfl, hinstallation⟩, (length_toVec_le _).trans hbound⟩

/-- The store with the archive of the closed operation on file. -/
def shelvedStore : Store Empty :=
  ⟨closedStore.installation, closedStore.root, (∅ : Table Bytes).insert
    (archiveFile .zero closedOperation (closedArchive.bytes .zero)) (closedArchive.bytes .zero)⟩

theorem getEnd_closedStore :
    ofOperation closedStore.root closedOperation closedEnd.recordId closedEnd :=
  ⟨get_closedStore (by simp [closedRecords]), rfl⟩

theorem archive_closedStore :
    ((Store.archive .zero (fun _ => .ok closedArchive) .ready closedArchive
      (closedArchive.bytes .zero)).exec closedStore).2 = shelvedStore := by
  have hinventory := inventory_closedStore fun _ => .ok closedArchive
  have hlen : (closedArchive.bytes .zero).length ≤ 20000 := by
    refine (length_toVec_le _).trans ?_
    decide +kernel
  obtain ⟨hfiled, hsize, -, hlinks⟩ := inventory_eq_ok hinventory
  exact archive_first hinventory rfl
    (validate_ofActive hfiled hsize hlinks getEnd_closedStore rfl) hlen rfl rfl rfl

/-- The start of the closed operation is unlinked, and its end is not. -/
theorem retention_interrupted_closed :
    let left := closedStore.root.erase closedStart.recordId
    closedStore.inventory .zero (fun _ => .ok closedArchive) .ready = .ok closedStore.root ∧
      left[closedEnd.recordId]? = some closedEnd ∧
      Swept .zero (fun _ => .ok closedArchive) closedOperation closedStore.root
        { shelvedStore with root := left } := by
  intro left
  have hinventory := inventory_closedStore fun _ => .ok closedArchive
  refine ⟨hinventory, ?_, ?_⟩
  · rw [Table.get_erase, if_neg (by decide)]
    exact getEnd_closedStore.1
  have hwritten : archiveFile .zero closedOperation (closedArchive.bytes .zero) ∈
      shelvedStore.archives := Table.mem_iff_get.mpr ⟨_, Table.get_insert_self⟩
  have hleft : Residue closedOperation shelvedStore.root left := by
    refine ⟨fun hr => ?_, fun {k r} hr hop => ?_⟩
    · rw [Table.get_erase] at hr
      split at hr
      · cases hr
      · exact hr
    · rw [Table.get_erase, if_neg]
      · exact hr
      · rintro rfl
        have hstart := get_closedStore (r := closedStart) (by simp [closedRecords])
        obtain rfl := Option.some.inj (hstart.symm.trans hr)
        exact hop rfl
  obtain ⟨-, hretained⟩ := retention_interrupted Outside.zero (fun _ => .ok closedArchive)
    fun _ => rfl
  exact ((hretained closedStore .ready _ rfl hinventory closedOperation _ _ _ getEnd_closedStore rfl
    closedArchive rfl).2 rfl .ready _ archive_closedStore hwritten left hleft).1

end LumaOS.Policy
