import LumaOS.Publication.Store
import LumaOS.Base.Loop
import Mathlib.Algebra.BigOperators.Group.List.Basic

/-!
# What a disk of the store holds

`Sound` is the invariant of the store between any two calls: complete pairs under `committed`,
stages of pairs under `retained` and at most one under `pending`, each request in one place, and
room for the pair being prepared. On such a disk the inventory succeeds and counts what is there
(`inventory_eq`), and a preparation is either complete or refused as a pair (`pair_of_offer`).
-/

namespace LumaOS.Publication

open LumaOS.Base LumaOS.Text LumaOS.Json

/-! ## Directories of a preparation -/

/-- The directory of a complete pair. -/
def pairDir (r : Receipt) (content : Bytes) : Dir :=
  (Table.single "report.json" content).insert "receipt.json" r.bytes

/-- What an interruption can leave of the preparation of a pair. -/
inductive Stage (r : Receipt) (content : Bytes) : Dir → Prop
  | empty : Stage r content ∅
  | report (written : Bytes) (h : written <+: content) :
      Stage r content (Table.single "report.json" written)
  | receipt (written : Bytes) (h : written <+: r.bytes) :
      Stage r content ((Table.single "report.json" content).insert "receipt.json" written)

/-- The bytes of a directory's members. -/
def weight (dir : Dir) : Nat := (dir.keys.map fun name => (dir[name]?.getD []).length).sum

section Stage

variable {r : Receipt} {content written : Bytes} {dir : Dir}

theorem stage_pairDir : Stage r content (pairDir r content) := .receipt _ (List.prefix_refl _)

theorem keys_pair : ((Table.single "report.json" content).insert "receipt.json" written).keys =
    ["receipt.json", "report.json"] := by
  refine Table.keys_eq (by decide) fun a => ?_
  rw [Table.mem_iff_get, Table.get_insert, Table.get_single]
  by_cases h : "receipt.json" = a <;> by_cases h' : "report.json" = a <;>
    simp [h, h', eq_comm (a := a)]

theorem size_le_two (h : Stage r content dir) : dir.size ≤ 2 := by
  rw [← Std.ExtTreeMap.length_keys]
  cases h with
  | empty => simp
  | report written h => simp [Table.keys_single]
  | receipt written h => simp [keys_pair]

/-- Every member of a stage is one the store knows, within its limit. -/
theorem stage_members (h : Stage r content dir) (hr : r.bytes.length ≤ maxReceipt)
    (hc : content.length ≤ maxContent) {name : String} (hname : name ∈ dir.keys) :
    ∃ bytes limit, dir[name]? = some bytes ∧ memberLimit name = .ok limit ∧
      bytes.length ≤ limit := by
  rw [Table.mem_keys_iff_get] at hname
  obtain ⟨bytes, hbytes⟩ := hname
  refine ⟨bytes, ?_⟩
  cases h with
  | empty => simp at hbytes
  | report written h =>
    rw [Table.get_single] at hbytes
    split at hbytes <;> cases hbytes
    rename_i hk
    subst hk
    exact ⟨maxContent, by rw [Table.get_single, if_pos rfl], rfl, h.length_le.trans hc⟩
  | receipt written h =>
    rw [Table.get_insert, Table.get_single] at hbytes
    split at hbytes
    · rename_i hk
      cases hbytes
      subst hk
      exact ⟨maxReceipt, by rw [Table.get_insert_self], rfl, h.length_le.trans hr⟩
    · split at hbytes <;> cases hbytes
      rename_i hk
      subst hk
      refine ⟨maxContent, ?_, rfl, hc⟩
      rw [Table.get_insert, if_neg (by decide), Table.get_single, if_pos rfl]

theorem weight_le (h : Stage r content dir) : weight dir ≤ r.bytes.length + content.length := by
  cases h with
  | empty => simp [weight]
  | report written h =>
    have := h.length_le
    simp [weight, Table.keys_single, Table.get_single]
    omega
  | receipt written h =>
    have := h.length_le
    simp [weight, keys_pair, Table.get_insert, Table.get_single]
    omega

theorem weight_pairDir : weight (pairDir r content) = r.bytes.length + content.length := by
  simp [weight, pairDir, keys_pair, Table.get_insert, Table.get_single]

end Stage

/-! ## Reading a stage -/

section Reading

variable {O : Outside} {installation : String} {parent : Table Dir} {request : String} {dir : Dir}
  {r : Receipt} {content : Bytes}

/-- A pair that `publish` accepts under a request. -/
structure Offer (O : Outside) (installation request : String) (r : Receipt) (content : Bytes) :
    Prop where
  valid : r.validate installation request = .ok ()
  reads : O.Reads r
  length : content.length = r.contentBytes.toNat
  digest : O.digest content = r.contentSha256

theorem Offer.identifier (h : Offer O installation request r content) :
    identifier request = true := (validate_eq_ok h.valid).identifier

theorem Offer.length_bytes_le (h : Offer O installation request r content) :
    r.bytes.length ≤ maxReceipt := (validate_eq_ok h.valid).length_bytes_le

theorem Offer.length_content_le (h : Offer O installation request r content) :
    content.length ≤ maxContent := by
  rw [h.length]
  exact (validate_eq_ok h.valid).contentBytes.2

theorem Offer.storedBytes (h : Offer O installation request r content) :
    r.storedBytes = r.bytes.length + content.length := by
  rw [Receipt.storedBytes, h.length, Nat.add_comm]

/-- **A complete pair is read back.** -/
theorem pair_of_offer (h : Offer O installation request r content)
    (hparent : parent[request]? = some (pairDir r content)) :
    pair O installation parent request = .ok (r, content) := by
  have hsize : (pairDir r content).size ≤ 2 := size_le_two stage_pairDir
  simp only [pair, bind_eq_ok, refuseIf_eq_ok, childDirectory, okOr_eq_ok, names, readMember,
    pure_eq_ok]
  refine ⟨(), by rw [h.identifier]; rfl, _, hparent, _, ⟨(), by simpa using hsize, rfl⟩, (), ?_,
    r.bytes, ⟨r.bytes, Table.get_insert_self, (), ?_, rfl⟩, r, h.reads, (), h.valid, (), ?_,
    content, ⟨content, ?_, (), ?_, rfl⟩, (), ?_, rfl⟩
  · rw [pairDir, keys_pair]
    rfl
  · simpa using h.length_bytes_le
  · simp
  · rw [pairDir, Table.get_insert, if_neg (by decide), Table.get_single, if_pos rfl]
  · simpa using h.length_content_le
  · simp [h.length, h.digest]

theorem observe_members {l : List String} {acc : List Value × Nat}
    (h : ∀ name ∈ l, ∃ bytes limit, dir[name]? = some bytes ∧ memberLimit name = .ok limit ∧
      bytes.length ≤ limit) :
    ∃ members, l.foldlM (observeMember O dir) acc =
      .ok (members, acc.2 + (l.map fun name => (dir[name]?.getD []).length).sum) := by
  let I : List Value × Nat → List String → Prop := fun s xs =>
    s.2 + (xs.map fun name => (dir[name]?.getD []).length).sum =
      acc.2 + (l.map fun name => (dir[name]?.getD []).length).sum ∧ xs ⊆ l
  have hstep : ∀ s name xs, I s (name :: xs) →
      ∃ s', observeMember O dir s name = .ok s' ∧ I s' xs := by
    rintro s name xs ⟨htotal, hsub⟩
    obtain ⟨bytes, limit, hbytes, hlimit, hle⟩ := h name (hsub List.mem_cons_self)
    refine ⟨(s.1 ++ [.object [("bytes", .number bytes.length), ("name", .string name),
      ("sha256", .string (O.digest bytes))]], s.2 + bytes.length), ?_, ?_,
      fun x hx => hsub (List.mem_cons_of_mem _ hx)⟩
    · simp only [observeMember, bind_eq_ok, readMember, okOr_eq_ok, refuseIf_eq_ok, pure_eq_ok]
      exact ⟨limit, hlimit, bytes, ⟨bytes, hbytes, (), by simpa using hle, rfl⟩, rfl⟩
    · rw [List.map_cons, List.sum_cons, hbytes] at htotal
      rw [← htotal]
      simp [Nat.add_assoc]
  obtain ⟨s, hs, htotal, -⟩ := foldlM_completes hstep (s := acc) ⟨rfl, fun _ h => h⟩
  exact ⟨s.1, hs.trans (congrArg _ (Prod.ext rfl (by simpa using htotal)))⟩

/-- **A stage is observed with its weight.** -/
theorem observation_of_stage (h : Offer O installation request r content)
    (hstage : Stage r content dir) (hparent : parent[request]? = some dir) :
    ∃ seen, observation O installation parent request = .ok (seen, weight dir) := by
  have hsmall : ∀ name ∈ dir.keys, ∃ bytes limit, dir[name]? = some bytes ∧
      memberLimit name = .ok limit ∧ bytes.length ≤ limit := fun _ hname =>
    stage_members hstage h.length_bytes_le h.length_content_le hname
  obtain ⟨members, hmembers⟩ : ∃ members, dir.keys.foldlM (observeMember O dir) ([], 0) =
      .ok (members, 0 + (dir.keys.map fun name => (dir[name]?.getD []).length).sum) :=
    observe_members hsmall
  have hsize := size_le_two hstage
  refine ⟨.object [("installation", .string installation), ("members", .array members),
    ("request_id", .string request)], ?_⟩
  simp only [observation, bind_eq_ok, refuseIf_eq_ok, childDirectory, okOr_eq_ok, names, pure_eq_ok]
  refine ⟨(), by rw [h.identifier]; rfl, dir, hparent, _, ⟨(), by simpa using hsize, rfl⟩, _,
    hmembers, ?_⟩
  rw [Nat.zero_add]
  rfl

end Reading

/-! ## The inventory -/

/-- The bytes of the preparations in a directory. -/
def used (t : Table Dir) : Nat := (t.toList.map fun e => weight e.2).sum

theorem used_insert {t : Table Dir} {request : String} {dir : Dir} (h : t[request]? = none) :
    used (t.insert request dir) = used t + weight dir := by
  obtain ⟨before, after, hsplit, hinsert⟩ := Table.toList_insert_split (v := dir) h
  simp only [used, hsplit, hinsert, List.map_append, List.map_cons, List.sum_append, List.sum_cons]
  omega

theorem size_insert {t : Table Dir} {request : String} {dir : Dir} (h : t[request]? = none) :
    (t.insert request dir).size = t.size + 1 := by
  rw [Std.ExtTreeMap.size_insert, if_neg]
  rw [← Std.ExtTreeMap.mem_iff_contains]
  exact Table.not_mem_iff_get.mpr h

variable (O : Outside) (installation : String)

/-- An entry of `committed`: the complete pair of the receipt. -/
def Holds (e : String × Dir) (r : Receipt) : Prop :=
  ∃ content, Offer O installation e.1 r content ∧ e.2 = pairDir r content

/-- An entry of `retained`: a stage of some pair. -/
def Left (e : String × Dir) : Prop :=
  ∃ r content, Offer O installation e.1 r content ∧ Stage r content e.2

/-- The entry under `pending`, and the room kept for it. -/
structure Preparing (d : Disk) (request : String) (r : Receipt) (content : Bytes) (dir : Dir) :
    Prop where
  pending : d.pending = Table.single request dir
  offer : Offer O installation request r content
  stage : Stage r content dir
  uncommitted : d.committed[request]? = none
  unretained : d.retained[request]? = none
  records : d.committed.size + d.retained.size < maxRecords
  bytes : used d.committed + used d.retained + r.storedBytes ≤ maxTotal

/-- **The invariant of the store.** -/
structure Sound (d : Disk) : Prop where
  committed : ∀ e ∈ d.committed.toList, ∃ r, Holds O installation e r
  retained : ∀ e ∈ d.retained.toList, Left O installation e
  apart : ∀ (request : String) (dir : Dir), d.committed[request]? = some dir →
    d.retained[request]? = none
  records : d.committed.size + d.retained.size ≤ maxRecords
  bytes : used d.committed + used d.retained ≤ maxTotal
  pending : d.pending = ∅ ∨ ∃ request r content dir,
    Preparing O installation d request r content dir

section Inventory

variable {O installation} {d : Disk}

theorem committed_loop : ∀ {es : List (String × Dir)} {acc : List Receipt × Nat},
    (∀ e ∈ es, d.committed[e.1]? = some e.2 ∧ ∃ r, Holds O installation e r) →
    acc.2 + (es.map fun e => weight e.2).sum ≤ maxTotal →
    ∃ rs, (es.map Prod.fst).foldlM (committedStep O installation d) acc =
        .ok (acc.1 ++ rs, acc.2 + (es.map fun e => weight e.2).sum) ∧
      List.Forall₂ (Holds O installation) es rs
  | [], acc, _, _ => ⟨[], by simp; rfl, .nil⟩
  | e :: es, acc, he, hbound => by
    rw [List.forall_mem_cons] at he
    obtain ⟨⟨hget, r, content, hoffer, hdir⟩, hes⟩ := he
    have hweight : weight e.2 = r.storedBytes := by
      rw [hdir, weight_pairDir, hoffer.storedBytes]
    rw [List.map_cons, List.sum_cons, hweight] at hbound
    have hbound' : (acc.1 ++ [r], acc.2 + r.storedBytes).2 + (es.map fun e => weight e.2).sum ≤
        maxTotal := by simpa [Nat.add_assoc] using hbound
    obtain ⟨rs, hrs, hall⟩ := committed_loop hes hbound'
    have hstep : committedStep O installation d acc e.1 =
        .ok (acc.1 ++ [r], acc.2 + r.storedBytes) := by
      simp only [committedStep, pair_of_offer hoffer (hget.trans (congrArg some hdir)),
        bind_eq_ok, refuseIf_eq_ok, pure_eq_ok]
      exact ⟨_, rfl, (), by simp; omega, rfl⟩
    refine ⟨r :: rs, ?_, .cons ⟨content, hoffer, hdir⟩ hall⟩
    rw [List.map_cons, List.foldlM_cons, hstep]
    refine hrs.trans ?_
    simp [hweight, Nat.add_assoc]

theorem retained_loop {receipts : List Receipt} :
    ∀ {es : List (String × Dir)} {total : Nat},
    (∀ e ∈ es, d.retained[e.1]? = some e.2 ∧ Left O installation e ∧
      ∀ r ∈ receipts, r.requestId ≠ e.1) →
    total + (es.map fun e => weight e.2).sum ≤ maxTotal →
    (es.map Prod.fst).foldlM (retainedStep O installation d receipts) total =
      .ok (total + (es.map fun e => weight e.2).sum)
  | [], _, _, _ => rfl
  | e :: es, total, he, hbound => by
    rw [List.forall_mem_cons] at he
    obtain ⟨⟨hget, ⟨r, content, hoffer, hstage⟩, hnew⟩, hes⟩ := he
    rw [List.map_cons, List.sum_cons] at hbound
    obtain ⟨seen, hseen⟩ := observation_of_stage hoffer hstage hget
    have hstep : retainedStep O installation d receipts total e.1 = .ok (total + weight e.2) := by
      simp only [retainedStep, hseen, bind_eq_ok, refuseIf_eq_ok, pure_eq_ok]
      exact ⟨(), by simpa using hnew, _, rfl, (), by simp; omega, rfl⟩
    rw [List.map_cons, List.foldlM_cons, hstep]
    refine (retained_loop hes (by omega)).trans ?_
    simp [Nat.add_assoc]

theorem holds_requestId (e : String × Dir) (r : Receipt) (h : Holds O installation e r) :
    r.requestId = e.1 := by
  obtain ⟨content, hoffer, -⟩ := h
  exact (validate_eq_ok hoffer.valid).requestId

theorem Sound.uncommitted (h : Sound O installation d) {request : String} {dir : Dir}
    (hretained : d.retained[request]? = some dir) : d.committed[request]? = none := by
  cases hc : d.committed[request]? with
  | none => rfl
  | some dir' =>
    rw [h.apart request dir' hc] at hretained
    cases hretained

theorem Sound.size_pending (h : Sound O installation d) : d.pending.size ≤ 1 := by
  rw [← Std.ExtTreeMap.length_keys]
  obtain hempty | ⟨request, r, content, dir, hp⟩ := h.pending
  · rw [hempty]
    simp
  · rw [hp.pending, Table.keys_single]
    exact Nat.le_refl 1

/-- **The inventory of a sound disk** lists its committed receipts and its pending request, and
counts the bytes in use. -/
theorem inventory_eq (h : Sound O installation d) :
    ∃ receipts, inventory O installation d =
        .ok (receipts, d.pending.keys, used d.committed + used d.retained) ∧
      List.Forall₂ (Holds O installation) d.committed.toList receipts := by
  have hcommitted : ∀ e ∈ d.committed.toList, d.committed[e.1]? = some e.2 ∧
      ∃ r, Holds O installation e r := fun e he =>
    ⟨Table.mem_toList_iff_get.mp he, h.committed e he⟩
  have hbytes : (([], 0) : List Receipt × Nat).2 + (d.committed.toList.map fun e => weight e.2).sum ≤
      maxTotal := (Nat.zero_add _).trans_le ((Nat.le_add_right _ _).trans h.bytes)
  obtain ⟨receipts, hreceipts, hall⟩ := committed_loop hcommitted hbytes
  have hids : receipts.map Receipt.requestId = d.committed.keys :=
    (map_eq_of_forall₂ holds_requestId hall).trans Std.ExtTreeMap.map_fst_toList_eq_keys
  have hnew : ∀ {id : String}, d.committed[id]? = none → ∀ r ∈ receipts, r.requestId ≠ id := by
    intro id hid r hr hrid
    have hmem : r.requestId ∈ receipts.map Receipt.requestId := List.mem_map_of_mem hr
    rw [hids, hrid, Table.mem_keys_iff_get, hid] at hmem
    simp at hmem
  have hlength : receipts.length = d.committed.size := by
    rw [← hall.length_eq, Std.ExtTreeMap.length_toList]
  have hleft : ∀ e ∈ d.retained.toList, d.retained[e.1]? = some e.2 ∧ Left O installation e ∧
      ∀ r ∈ receipts, r.requestId ≠ e.1 := fun e he =>
    ⟨Table.mem_toList_iff_get.mp he, h.retained e he,
      hnew (h.uncommitted (Table.mem_toList_iff_get.mp he))⟩
  have hretained := retained_loop hleft h.bytes
  rw [Std.ExtTreeMap.map_fst_toList_eq_keys] at hreceipts hretained
  have hrecords := h.records
  refine ⟨receipts, ?_, hall⟩
  simp only [inventory, names, bind_eq_ok, refuseIf_eq_ok, pure_eq_ok, decide_eq_false_iff_not,
    Nat.not_lt]
  refine ⟨d.committed.keys, ⟨(), by omega, rfl⟩, (receipts, used d.committed), ?_, d.retained.keys,
    ⟨(), by omega, rfl⟩, (), ?_, _, hretained, d.pending.keys, ⟨(), h.size_pending, rfl⟩, (), ?_,
    rfl⟩
  · simpa [used] using hreceipts
  · rw [hlength, Std.ExtTreeMap.length_keys]
    exact h.records
  · rw [List.any_eq_false]
    intro id hid
    obtain hempty | ⟨request, r, content, dir, hp⟩ := h.pending
    · rw [hempty] at hid
      simp at hid
    · rw [hp.pending, Table.keys_single, List.mem_singleton] at hid
      subst hid
      have hretained : id ∉ d.retained.keys := by
        rw [Table.mem_keys_iff_get, hp.unretained]
        simp
      simpa [hp.offer.identifier, hretained] using hnew hp.uncommitted

end Inventory

end LumaOS.Publication
