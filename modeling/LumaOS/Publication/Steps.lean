import LumaOS.Publication.Sound

/-!
# What the methods do to the disk

`Change` lists what a call can leave, wherever it is cut off: the disk as it was, a stage of the
pair under `pending`, the pair under `committed`, or the preparation under `retained`. Every change
keeps `Sound` (`sound_change`), and every method of the store only changes the disk so
(`ends_publish`, `ends_reconcile`, `ends_abort`).
-/

namespace LumaOS.Publication

open LumaOS.Base LumaOS.Text LumaOS.Json

open Mut (exec)

/-! ## Changes -/

/-- The disk with one preparation. -/
def Disk.preparing (d : Disk) (request : String) (dir : Dir) : Disk :=
  { d with pending := Table.single request dir }

/-- The disk after the preparation was committed. -/
def Disk.committing (d : Disk) (request : String) (dir : Dir) : Disk :=
  { d with committed := d.committed.insert request dir, pending := ∅ }

/-- The disk after the preparation was retained. -/
def Disk.retaining (d : Disk) (request : String) (dir : Dir) : Disk :=
  { d with retained := d.retained.insert request dir, pending := ∅ }

variable (O : Outside) (installation : String)

/-- The disk can take a preparation of the pair. -/
structure Ready (d : Disk) (request : String) (r : Receipt) (content : Bytes) : Prop where
  offer : Offer O installation request r content
  uncommitted : d.committed[request]? = none
  unretained : d.retained[request]? = none
  records : d.committed.size + d.retained.size < maxRecords
  bytes : used d.committed + used d.retained + r.storedBytes ≤ maxTotal

/-- **What a call can do to the disk**; `request` is the one it names. -/
inductive Change (d : Disk) (request : String) : Disk → Prop
  | same : Change d request d
  | prepared (r : Receipt) (content : Bytes) (dir : Dir) (hpending : d.pending = ∅)
      (h : Ready O installation d request r content) (hstage : Stage r content dir) :
      Change d request (d.preparing request dir)
  | committed (r : Receipt) (content : Bytes)
      (hpending : d.pending = ∅ ∨ d.pending = Table.single request (pairDir r content))
      (h : Ready O installation d request r content) :
      Change d request (d.committing request (pairDir r content))
  | retained (r : Receipt) (content : Bytes) (dir : Dir)
      (hpending : d.pending = Table.single request dir)
      (h : Ready O installation d request r content) (hstage : Stage r content dir) :
      Change d request (d.retaining request dir)

section Change

variable {O installation} {d d' : Disk} {request : String} {r : Receipt} {content : Bytes}
  {dir : Dir}

theorem Preparing.ready (h : Preparing O installation d request r content dir) :
    Ready O installation d request r content :=
  ⟨h.offer, h.uncommitted, h.unretained, h.records, h.bytes⟩

theorem mem_toList_insert {t : Table Dir} {e : String × Dir}
    (he : e ∈ (t.insert request dir).toList) : e = (request, dir) ∨ e ∈ t.toList := by
  rw [Table.mem_toList_iff_get, Table.get_insert] at he
  split at he
  · rename_i hk
    exact Or.inl (Prod.ext hk.symm (Option.some.inj he).symm)
  · exact Or.inr (Table.mem_toList_iff_get.mpr he)

/-- **Every change keeps the invariant.** -/
theorem sound_change (hs : Sound O installation d) (h : Change O installation d request d') :
    Sound O installation d' := by
  cases h with
  | same => exact hs
  | prepared r content dir hpending h hstage =>
    exact ⟨hs.committed, hs.retained, hs.apart, hs.records, hs.bytes, Or.inr ⟨request, r, content,
      dir, rfl, h.offer, hstage, h.uncommitted, h.unretained, h.records, h.bytes⟩⟩
  | committed r content hpending h =>
    have hsize : (d.committed.insert request (pairDir r content)).size = d.committed.size + 1 :=
      size_insert h.uncommitted
    have hused : used (d.committed.insert request (pairDir r content)) =
        used d.committed + weight (pairDir r content) := used_insert h.uncommitted
    have hrecords := h.records
    have hbytes := h.bytes
    rw [weight_pairDir, ← h.offer.storedBytes] at hused
    refine ⟨fun e he => ?_, hs.retained, fun id dir' hid => ?_, ?_, ?_, Or.inl rfl⟩
    · obtain rfl | he := mem_toList_insert he
      · exact ⟨r, content, h.offer, rfl⟩
      · exact hs.committed e he
    · rw [Disk.committing, Table.get_insert] at hid
      split at hid
      · rename_i hk
        rw [← hk]
        exact h.unretained
      · exact hs.apart id dir' hid
    · simp only [Disk.committing]
      omega
    · simp only [Disk.committing]
      omega
  | retained r content dir hpending h hstage =>
    have hsize : (d.retained.insert request dir).size = d.retained.size + 1 :=
      size_insert h.unretained
    have hused : used (d.retained.insert request dir) = used d.retained + weight dir :=
      used_insert h.unretained
    have hweight := weight_le hstage
    have hrecords := h.records
    have hbytes := h.bytes
    rw [← h.offer.storedBytes] at hweight
    refine ⟨hs.committed, fun e he => ?_, fun id dir' hid => ?_, ?_, ?_, Or.inl rfl⟩
    · obtain rfl | he := mem_toList_insert he
      · exact ⟨r, content, h.offer, hstage⟩
      · exact hs.retained e he
    · rw [Disk.retaining, Table.get_insert, if_neg]
      · exact hs.apart id dir' hid
      · rintro rfl
        have := h.uncommitted
        rw [show d.committed[request]? = some dir' from hid] at this
        cases this
    · simp only [Disk.retaining]
      omega
    · simp only [Disk.retaining]
      omega

end Change

/-! ## Writing a preparation -/

section Writing

variable {O installation} {d : Disk} {request name : String} {r : Receipt} {content : Bytes}
  {dir : Dir} {G : Space → Prop} {E : Disk → Prop}

theorem exec_makePending (h : d.pending = ∅) :
    exec (makePending request) d = (.ok (), d.preparing request ∅) := by
  rw [makePending, Mut.exec_bind_get, Mut.exec_bind_lift_eq_ok]
  refine ⟨(), refuseIf_eq_ok.mpr ?_, ?_⟩
  · rw [h]
    exact Std.ExtTreeMap.contains_empty
  · rw [Mut.exec_set, h]
    rfl

theorem get_preparing : (d.preparing request dir).pending[request]? = some dir :=
  Table.get_single.trans (if_pos rfl)

/-- A directory that is not there is not refused. -/
theorem refuseIf_contained {α : Type} {t : Table α} {key message : String} (h : t[key]? = none) :
    refuseIf (t.contains key) message = .ok () := by
  rw [refuseIf_eq_ok, ← Bool.not_eq_true, ← Std.ExtTreeMap.mem_iff_contains]
  exact Table.not_mem_iff_get.mpr h

theorem exec_createMember (h : dir[name]? = none) :
    exec (createMember request name) (d.preparing request dir) =
      (.ok (), d.preparing request (dir.insert name [])) := by
  rw [createMember, Mut.exec_bind_get, Mut.exec_bind_lift_eq_ok]
  refine ⟨dir, okOr_eq_ok.mpr get_preparing, ?_⟩
  rw [Mut.exec_bind_lift_eq_ok]
  refine ⟨(), refuseIf_contained h, ?_⟩
  rw [Mut.exec_set]
  exact congrArg (fun t => (Except.ok (), { d with pending := t })) Table.insert_insert

theorem exec_writeByte {written : Bytes} {byte : UInt8} :
    exec (writeByte request name byte) (d.preparing request (dir.insert name written)) =
      (.ok (), d.preparing request (dir.insert name (written ++ [byte]))) := by
  rw [writeByte, Mut.exec_modify]
  simp only [Disk.preparing, Table.single, Table.modify_insert]

theorem erase_single : (Table.single request dir).erase request = (∅ : Table Dir) :=
  Table.erase_insert Std.ExtTreeMap.getElem?_empty

theorem exec_renameCommitted (h : d.committed[request]? = none) :
    exec (renameCommitted request) (d.preparing request dir) =
      (.ok (), d.committing request dir) := by
  rw [renameCommitted, Mut.exec_bind_get, Mut.exec_bind_lift_eq_ok]
  refine ⟨dir, okOr_eq_ok.mpr get_preparing, ?_⟩
  rw [Mut.exec_bind_lift_eq_ok]
  refine ⟨(), refuseIf_contained h, ?_⟩
  rw [Mut.exec_set]
  simp only [Disk.preparing, Disk.committing, erase_single]

theorem exec_renameRetained (h : d.retained[request]? = none) :
    exec (renameRetained request) (d.preparing request dir) =
      (.ok (), d.retaining request dir) := by
  rw [renameRetained, Mut.exec_bind_get, Mut.exec_bind_lift_eq_ok]
  refine ⟨dir, okOr_eq_ok.mpr get_preparing, ?_⟩
  rw [Mut.exec_bind_lift_eq_ok]
  refine ⟨(), refuseIf_contained h, ?_⟩
  rw [Mut.exec_set]
  simp only [Disk.preparing, Disk.retaining, erase_single]

theorem performs_syncAll (hE : E d) : Performs G syncAll d () d E :=
  performs_call hE hE fun _ => rfl

/-- The authority is looked up without touching the disk. -/
theorem performs_authorize (hE : E d) : Performs (fun _ => True) authorize d () d E :=
  performs_syncAll hE

theorem performs_look {α : Type} {f : Disk → Result α} {a : α} (hE : E d) (h : f d = .ok a) :
    Performs G (look f) d a d E :=
  performs_call hE hE fun _ => by rw [Mut.exec_bind_get, Mut.exec_lift, h]

theorem ends_look {α : Type} {f : Disk → Result α} (hE : E d) :
    Ends (look f) d (fun a d' => d = d' ∧ f d = .ok a) E :=
  ends_call hE fun _ => Mut.spec_bind_get (Mut.spec_lift fun _ h => ⟨⟨rfl, h⟩, hE⟩)

/-- **A member is written byte by byte**; whatever the interruption, a prefix is there. -/
theorem performs_writeMember {bytes : Bytes} (h : dir[name]? = none)
    (hE : E (d.preparing request dir))
    (hwritten : ∀ written, written <+: bytes → E (d.preparing request (dir.insert name written))) :
    Performs G (writeMember request name bytes) (d.preparing request dir) ()
      (d.preparing request (dir.insert name bytes)) E := by
  let I : Bytes → Disk → Prop := fun rest d' => ∃ written, written ++ rest = bytes ∧
    d' = d.preparing request (dir.insert name written)
  have hstep : ∀ d' byte rest, I (byte :: rest) d' → ∃ d'',
      Performs G (call fun _ => writeByte request name byte) d' .unit d'' E ∧ I rest d'' := by
    rintro _ byte rest ⟨written, hsplit, rfl⟩
    have hnext : (written ++ [byte]) ++ rest = bytes := by
      rw [List.append_assoc, List.singleton_append, hsplit]
    exact ⟨_, performs_call (hwritten _ ⟨_, hsplit⟩) (hwritten _ ⟨_, hnext⟩)
      fun _ => exec_writeByte, _, hnext, rfl⟩
  obtain ⟨d', hloop, written, hall, rfl⟩ := performs_forM hstep
    (w := d.preparing request (dir.insert name [])) ⟨[], rfl, rfl⟩
  rw [List.append_nil] at hall
  subst hall
  exact performs_bind (performs_call hE (hwritten [] List.nil_prefix) fun _ => exec_createMember h)
    (performs_bind hloop (performs_syncAll (hwritten _ (List.prefix_refl _))))

/-- **The pair is made durable** where it is committed. -/
theorem performs_durable (hE : E d) (h : d.committed[request]? = some (pairDir r content)) :
    Performs G (durable request) d () d E := by
  have hreport : (pairDir r content)["report.json"]? = some content := by
    rw [pairDir, Table.get_insert, if_neg (by decide), Table.get_single, if_pos rfl]
  have hreceipt : (pairDir r content)["receipt.json"]? = some r.bytes := Table.get_insert_self
  have hmember : ∀ {name : String} {bytes : Bytes}, (pairDir r content)[name]? = some bytes →
      Performs G (syncMember (pairDir r content) name) d () d E := fun hname =>
    performs_bind (performs_look hE (okOr_eq_ok.mpr hname)) (performs_syncAll hE)
  have hsync : Performs G syncAll d () d E := performs_syncAll hE
  have hmembers : Performs G (["report.json", "receipt.json"].forM
      (syncMember (pairDir r content))) d () d E :=
    performs_bind (hmember hreport) (performs_bind (hmember hreceipt) performs_pure)
  exact performs_bind (performs_look hE (okOr_eq_ok.mpr h)) (performs_bind hmembers
    (performs_bind hsync (performs_bind hsync (performs_bind hsync hsync))))

theorem performs_commit (h : Ready O installation d request r content)
    (hE' : E (d.preparing request (pairDir r content)))
    (hE'' : E (d.committing request (pairDir r content))) {α : Type} {a : α} :
    Performs G (do
        authorize
        renamePair request
        durable request
        pure a)
      (d.preparing request (pairDir r content)) a (d.committing request (pairDir r content)) E := by
  refine performs_bind (performs_syncAll hE') ?_
  refine performs_bind (performs_call hE' hE'' fun _ => exec_renameCommitted h.uncommitted) ?_
  exact performs_bind (performs_durable hE'' Table.get_insert_self) performs_pure

/-- **A preparation is written and committed**; cut off, it leaves a stage of the pair. -/
theorem performs_prepare (hpending : d.pending = ∅)
    (h : Ready O installation d r.requestId r content) :
    Performs G (prepare O installation r content) d false
      (d.committing r.requestId (pairDir r content)) (Change O installation d r.requestId) := by
  have hstage : ∀ {dir : Dir}, Stage r content dir →
      Change O installation d r.requestId (d.preparing r.requestId dir) := fun hdir =>
    .prepared r content _ hpending h hdir
  have hempty := hstage .empty
  have hpair : Change O installation d r.requestId (d.preparing r.requestId (pairDir r content)) :=
    hstage stage_pairDir
  have hreceipt : (Table.single "report.json" content)["receipt.json"]? = none :=
    Table.get_single.trans (if_neg (by decide))
  have hsync := performs_syncAll (G := G) hpair
  refine performs_bind (performs_bind (performs_call .same hempty fun _ =>
    exec_makePending hpending) (performs_syncAll hempty)) ?_
  refine performs_bind (performs_writeMember Std.ExtTreeMap.getElem?_empty hempty
    fun written hw => hstage (.report written hw)) ?_
  refine performs_bind (performs_writeMember hreceipt
    (hstage (.report content (List.prefix_refl _))) fun written hw =>
      hstage (.receipt written hw)) ?_
  refine performs_bind hsync (performs_bind hsync ?_)
  refine performs_bind (performs_look hpair (pair_of_offer h.offer get_preparing)) ?_
  exact performs_commit h hpair (.committed r content (Or.inl hpending) h)

end Writing

/-! ## The methods -/

section Methods

variable {O installation} {d : Disk} {request review : String} {r : Receipt} {content : Bytes}
  {receipts : List Receipt}

theorem names_retained (hs : Sound O installation d) :
    names d.retained maxRecords = .ok d.retained.keys := by
  have hrecords := hs.records
  simp only [names, bind_eq_ok, refuseIf_eq_ok, pure_eq_ok, decide_eq_false_iff_not, Nat.not_lt]
  exact ⟨(), by omega, trivial⟩

/-- A receipt of the inventory is that of a committed pair. -/
theorem committed_of_mem (hall : List.Forall₂ (Holds O installation) d.committed.toList receipts)
    (hr : r ∈ receipts) : ∃ content, Offer O installation r.requestId r content ∧
      d.committed[r.requestId]? = some (pairDir r content) := by
  obtain ⟨e, he, hholds⟩ := exists_mem_of_forall₂ hall r hr
  obtain ⟨content, hoffer, hdir⟩ := id hholds
  rw [holds_requestId e r hholds]
  refine ⟨content, hoffer, ?_⟩
  rw [← hdir]
  exact Table.mem_toList_iff_get.mp he

theorem requestIds (hall : List.Forall₂ (Holds O installation) d.committed.toList receipts) :
    receipts.map Receipt.requestId = d.committed.keys :=
  (map_eq_of_forall₂ holds_requestId hall).trans Std.ExtTreeMap.map_fst_toList_eq_keys

/-- A request that the inventory does not list is not committed. -/
theorem uncommitted_of_find
    (hall : List.Forall₂ (Holds O installation) d.committed.toList receipts)
    (h : (receipts.find? fun r => r.requestId == request) = none) :
    d.committed[request]? = none := by
  rw [← Table.not_mem_iff_get, ← Std.ExtTreeMap.mem_keys, ← requestIds hall, List.mem_map]
  rintro ⟨r, hr, hrid⟩
  rw [List.find?_eq_none] at h
  exact h r hr (by simpa using hrid)

theorem length_receipts (hall : List.Forall₂ (Holds O installation) d.committed.toList receipts) :
    receipts.length = d.committed.size := by
  rw [← hall.length_eq, Std.ExtTreeMap.length_toList]

theorem unretained_of_keys (h : d.retained.keys.contains request = false) :
    d.retained[request]? = none := by
  rw [← Table.not_mem_iff_get, ← Std.ExtTreeMap.mem_keys]
  simpa using h

/-- The capacity checks leave room for the pair. -/
theorem ready_of_capacity (hall : List.Forall₂ (Holds O installation) d.committed.toList receipts)
    (hoffer : Offer O installation request r content) (hcommitted : d.committed[request]? = none)
    (hretained : d.retained[request]? = none)
    (h : (receipts.length + d.retained.keys.length ≥ maxRecords ||
      used d.committed + used d.retained + r.storedBytes > maxTotal) = false) :
    Ready O installation d request r content := by
  rw [length_receipts hall, Std.ExtTreeMap.length_keys, Bool.or_eq_false_iff,
    decide_eq_false_iff_not, decide_eq_false_iff_not] at h
  exact ⟨hoffer, hcommitted, hretained, Nat.not_le.mp h.1, Nat.not_lt.mp h.2⟩

/-- What a publication that returned did. -/
inductive Published (d : Disk) (r : Receipt) (content : Bytes) : Bool → Disk → Prop
  | replayed (content' : Bytes) (hoffer : Offer O installation r.requestId r content')
      (h : d.committed[r.requestId]? = some (pairDir r content')) :
      Published d r content true d
  | committed (h : Ready O installation d r.requestId r content) (hpending : d.pending = ∅) :
      Published d r content false (d.committing r.requestId (pairDir r content))

/-- **What a publication does**, wherever it is cut off. -/
theorem ends_publish (hs : Sound O installation d) (hreads : O.Reads r) :
    Ends (publish O installation r content) d
      (@Published O installation d r content)
      (Change O installation d r.requestId) := by
  have hsame : Change O installation d r.requestId d := .same
  obtain ⟨receipts, hinventory, hall⟩ := inventory_eq hs
  have hnames := names_retained hs
  refine ends_bind_lift hsame fun _ hvalid => ends_bind_lift hsame fun _ hcontent => ?_
  rw [refuseIf_eq_ok, Bool.or_eq_false_iff, bne_eq_false_iff_eq, bne_eq_false_iff_eq] at hcontent
  have hoffer : Offer O installation r.requestId r content :=
    ⟨hvalid, hreads, hcontent.1, hcontent.2⟩
  refine (performs_authorize hsame).ends_bind ?_
  refine (performs_look (G := fun _ => True) hsame hinventory).ends_bind ?_
  refine (performs_look (G := fun _ => True) hsame hnames).ends_bind ?_
  refine ends_bind_lift hsame fun _ hretained => ?_
  have hunretained := unretained_of_keys (refuseIf_eq_ok.mp hretained)
  split
  · rename_i previous hfind
    refine ends_bind_lift hsame fun _ hprevious => ?_
    rw [refuseIf_eq_ok, bne_eq_false_iff_eq] at hprevious
    subst hprevious
    obtain ⟨content', hoffer', hget⟩ := committed_of_mem hall (List.mem_of_find?_eq_some hfind)
    refine (performs_authorize hsame).ends_bind ?_
    refine (performs_durable (G := fun _ => True) hsame hget).ends_bind ?_
    exact ends_pure (.replayed content' hoffer' hget)
  · rename_i hfind
    refine ends_bind_lift hsame fun _ hpending => ends_bind_lift hsame fun _ hcapacity => ?_
    have hpending := Table.eq_empty_of_keys (List.isEmpty_iff.mp
      (by simpa using refuseIf_eq_ok.mp hpending))
    have hready : Ready O installation d r.requestId r content :=
      ready_of_capacity hall hoffer (uncommitted_of_find hall hfind) hunretained
        (refuseIf_eq_ok.mp hcapacity)
    refine ends_bind (Q := fun _ d' => d = d') (ends_call hsame fun space => ?_) ?_
    · exact Mut.spec_lift fun _ _ => ⟨rfl, hsame⟩
    · rintro _ d' rfl
      refine (performs_prepare (G := fun _ => True) hpending hready).ends.mono ?_ fun _ h => h
      rintro _ _ ⟨rfl, rfl⟩
      exact .committed hready hpending

/-- **What reads as a pair is a complete pair.** -/
theorem offer_of_pair {parent : Table Dir}
    (h : pair O installation parent request = .ok (r, content)) :
    parent[request]? = some (pairDir r content) ∧ Offer O installation request r content := by
  simp only [pair, bind_eq_ok, refuseIf_eq_ok, childDirectory, okOr_eq_ok, names, readMember,
    pure_eq_ok, Prod.mk.injEq] at h
  obtain ⟨_, -, dir, hdir, listed, ⟨_, -, rfl⟩, _, hlisted, bytes, ⟨_, hbytes, _, -, rfl⟩, r',
    hread, _, hvalid, _, hcanonical, content', ⟨_, hcontent, _, -, rfl⟩, _, hmatch, rfl, rfl⟩ := h
  rw [bne_eq_false_iff_eq] at hcanonical hlisted
  rw [Bool.or_eq_false_iff, bne_eq_false_iff_eq, bne_eq_false_iff_eq] at hmatch
  subst hcanonical
  refine ⟨hdir.trans (congrArg some ?_), hvalid, hread, hmatch.1, hmatch.2⟩
  refine Std.ExtTreeMap.ext_getElem? fun name => ?_
  rw [pairDir, Table.get_insert, Table.get_single]
  split
  · rename_i hname
    rw [← hname, hbytes]
  · split
    · rename_i hname
      rw [← hname, hcontent]
    · rename_i h₁ h₂
      rw [← Table.not_mem_iff_get, ← Std.ExtTreeMap.mem_keys, hlisted]
      simp [Ne.symm h₁, Ne.symm h₂]

/-- The request that is listed as pending is the one being prepared. -/
theorem preparing_of_keys (hs : Sound O installation d) (h : d.pending.keys = [request]) :
    ∃ r content dir, Preparing O installation d request r content dir := by
  obtain hempty | ⟨id, r, content, dir, hp⟩ := hs.pending
  · have hmem : request ∈ d.pending.keys := h ▸ List.mem_singleton_self request
    rw [hempty] at hmem
    simp at hmem
  · rw [hp.pending, Table.keys_single, List.singleton_inj] at h
    subst h
    exact ⟨r, content, dir, hp⟩

/-- What a reconciliation that returned did. -/
inductive Reconciled (d : Disk) (request : String) (r : Receipt) : Disk → Prop
  | replayed (content : Bytes) (hoffer : Offer O installation request r content)
      (h : d.committed[request]? = some (pairDir r content)) : Reconciled d request r d
  | committed (content : Bytes) (h : Ready O installation d request r content)
      (hpending : d.pending = Table.single request (pairDir r content)) :
      Reconciled d request r (d.committing request (pairDir r content))

/-- **What a reconciliation does**, wherever it is cut off. -/
theorem ends_reconcile (hs : Sound O installation d) :
    Ends (reconcile O installation request review) d
      (@Reconciled O installation d request)
      (Change O installation d request) := by
  have hsame : Change O installation d request d := .same
  obtain ⟨receipts, hinventory, hall⟩ := inventory_eq hs
  refine ends_bind_lift hsame fun _ hreview => ?_
  refine (performs_look (G := fun _ => True) hsame hinventory).ends_bind ?_
  dsimp only
  split
  · rename_i receipt hfind
    obtain ⟨content, hoffer, hget⟩ := committed_of_mem hall (List.mem_of_find?_eq_some hfind)
    have hid : receipt.requestId = request := by simpa using List.find?_some hfind
    subst hid
    refine ends_bind_lift hsame fun _ hstate => ?_
    refine (performs_authorize hsame).ends_bind ?_
    refine (performs_durable (G := fun _ => True) hsame hget).ends_bind ?_
    exact ends_pure (.replayed content hoffer hget)
  · rename_i hfind
    refine ends_bind_lift hsame fun _ hpending => ?_
    rw [refuseIf_eq_ok, bne_eq_false_iff_eq] at hpending
    obtain ⟨r₀, content₀, dir, hp⟩ := preparing_of_keys hs hpending
    refine ends_bind (Q := fun found d' => d = d' ∧
      pair O installation d.pending request = .ok found) (ends_look hsame) ?_
    rintro ⟨receipt, content⟩ d' ⟨rfl, hpair⟩
    obtain ⟨hget, hoffer⟩ := offer_of_pair hpair
    rw [hp.pending, Table.get_single, if_pos rfl, Option.some_inj] at hget
    subst hget
    refine ends_bind_lift hsame fun _ hstale => ?_
    refine (performs_look (G := fun _ => True) hsame (names_retained hs)).ends_bind ?_
    refine ends_bind_lift hsame fun _ hcapacity => ?_
    have hready : Ready O installation d request receipt content :=
      ready_of_capacity hall hoffer (uncommitted_of_find hall hfind) hp.unretained
        (refuseIf_eq_ok.mp hcapacity)
    have hd : d = d.preparing request (pairDir receipt content) := by
      rw [Disk.preparing, ← hp.pending]
    have hcommit := performs_commit (G := fun _ => True) (E := Change O installation d request)
      (a := receipt) hready (by rwa [← hd]) (.committed receipt content (Or.inr hp.pending) hready)
    rw [← hd] at hcommit
    refine hcommit.ends.mono ?_ fun _ h => h
    rintro _ _ ⟨rfl, rfl⟩
    exact .committed content hready hp.pending

/-- What an abort that returned did. -/
inductive Aborted (d : Disk) (request : String) : Disk → Prop
  | retained (dir : Dir) (h : d.retained[request]? = some dir) : Aborted d request d
  | moved (r : Receipt) (content : Bytes) (dir : Dir)
      (h : Preparing O installation d request r content dir) :
      Aborted d request (d.retaining request dir)

theorem performs_settleRetained {G : Space → Prop} {E : Disk → Prop} {dir : Dir} (hE : E d)
    (h : d.retained[request]? = some dir) (hsize : dir.size ≤ 2) :
    Performs G (settleRetained request) d () d E := by
  have hsync : Performs G syncAll d () d E := performs_syncAll hE
  have hlisted : names dir 2 = .ok dir.keys := by
    simp only [names, bind_eq_ok, refuseIf_eq_ok, pure_eq_ok]
    exact ⟨(), by simpa using hsize, trivial⟩
  have hstep : ∀ d' name rest, d' = d ∧ name :: rest ⊆ dir.keys → ∃ d'',
      Performs G (syncMember dir name) d' .unit d'' E ∧ d'' = d ∧ rest ⊆ dir.keys := by
    rintro _ name rest ⟨rfl, hsub⟩
    obtain ⟨bytes, hbytes⟩ := Table.mem_keys_iff_get.mp (hsub List.mem_cons_self)
    exact ⟨_, performs_bind (performs_look hE (okOr_eq_ok.mpr hbytes)) (performs_syncAll hE), rfl,
      fun x hx => hsub (List.mem_cons_of_mem name hx)⟩
  obtain ⟨_, hloop, rfl, -⟩ := performs_forM (I := fun rest d' => d' = d ∧ rest ⊆ dir.keys) hstep
    (w := d) ⟨rfl, fun _ h => h⟩
  exact performs_bind (performs_look hE (okOr_eq_ok.mpr h)) (performs_bind
    (performs_look hE hlisted) (performs_bind hloop (performs_bind hsync (performs_bind hsync
      (performs_bind hsync hsync)))))

theorem Preparing.eq_preparing {dir : Dir}
    (h : Preparing O installation d request r content dir) : d = d.preparing request dir := by
  rw [Disk.preparing, ← h.pending]

theorem performs_retain {G : Space → Prop} {dir : Dir}
    (h : Preparing O installation d request r content dir) :
    Performs G (do
        call fun _ => renameRetained request
        settleRetained request)
      d () (d.retaining request dir) (Change O installation d request) := by
  have hretained : Change O installation d request (d.retaining request dir) :=
    .retained r content dir h.pending h.ready h.stage
  have hrename : exec (renameRetained request) (d.preparing request dir) =
      (.ok (), d.retaining request dir) := exec_renameRetained h.unretained
  rw [← h.eq_preparing] at hrename
  exact performs_bind (performs_call .same hretained fun _ => hrename)
    (performs_settleRetained hretained Table.get_insert_self (size_le_two h.stage))

/-- **What an abort does**, wherever it is cut off. -/
theorem ends_abort (hs : Sound O installation d) :
    Ends (abort O installation request review) d
      (fun _ => @Aborted O installation d request)
      (Change O installation d request) := by
  have hsame : Change O installation d request d := .same
  obtain ⟨receipts, hinventory, hall⟩ := inventory_eq hs
  refine ends_bind_lift hsame fun _ hreview => ?_
  refine (performs_look (G := fun _ => True) hsame hinventory).ends_bind ?_
  refine ends_bind_lift hsame fun _ hacknowledged => ?_
  refine (performs_look (G := fun _ => True) hsame (names_retained hs)).ends_bind ?_
  refine ends_bind_lift hsame fun _ hmatches => ?_
  refine ends_bind (ends_look hsame) ?_
  rintro ⟨seen, bytes⟩ d' ⟨rfl, hseen⟩
  refine ends_bind_lift hsame fun _ hcapacity => ends_bind_lift hsame fun _ hstale => ?_
  refine (performs_authorize hsame).ends_bind ?_
  cases hretained : d.retained.keys.any fun r => r == request with
  | true =>
    rw [List.any_eq_true] at hretained
    obtain ⟨id, hid, hrequest⟩ := hretained
    rw [beq_iff_eq] at hrequest
    subst hrequest
    obtain ⟨dir, hdir⟩ := Table.mem_keys_iff_get.mp hid
    obtain ⟨r, content, -, hstage⟩ := hs.retained (id, dir) (Table.mem_toList_iff_get.mpr hdir)
    rw [if_pos rfl]
    refine (performs_settleRetained (G := fun _ => True) hsame hdir
      (size_le_two hstage)).ends.mono (fun _ d' h => ?_) fun _ h => h
    rw [h.2]
    exact .retained dir hdir
  | false =>
    rw [refuseIf_eq_ok, hretained, Bool.not_false, Bool.true_and, bne_eq_false_iff_eq] at hmatches
    obtain ⟨r, content, dir, hp⟩ := preparing_of_keys hs hmatches
    rw [if_neg (by decide)]
    refine (performs_retain (G := fun _ => True) hp).ends.mono (fun _ d' h => ?_) fun _ h => h
    rw [h.2]
    exact .moved r content dir hp

end Methods

end LumaOS.Publication
