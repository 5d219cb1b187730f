import LumaOS.Evidence.Deletion
import Mathlib.Tactic.Linarith

/-!
# A directory between two deletions

`Left` sums up `delete_leaves`: what a call can leave, with the replies that lead there. `Settled` is
what a directory is between calls that do not stop at the wrong moment: `retention_outcomes`
succeeds, a receipt has its intent, and of every intent at least one target is gone. A plan made in
such a directory is not the plan of an intent, so its intent is new.

* `Left.settled`: a call that does not stop there leaves a settled directory.
* `Settled.deletes`: where nothing fails, a plan made in a settled directory is carried out.
-/

namespace LumaOS.Evidence

open LumaOS.Base LumaOS.Text LumaOS.Json
open LumaOS.Resources (Ledger)
open LumaOS.Inference (Gate)

variable {O : Outside} {d d' : Directory} {plan : DeletionPlan} {names : List String}
  {reviewed : String} {replies : List (Reply Seen)}

variable {gone : List String} {g : File}

/-! ## What a call leaves -/

/-- `d` without the targets in `gone`, and nothing else than the records of `reviewed` new. -/
structure After (O : Outside) (d : Directory) (names : List String) (reviewed : String)
    (plan : DeletionPlan) (gone : List String) (d' : Directory) : Prop where
  proceeds : Proceeds O d names reviewed plan
  targets : gone <+: plan.targets
  identity : d'.identity = d.identity
  others : ∀ a, isRecord a = false → d'.files[a]? = if a ∈ gone then none else d.files[a]?
  records : ∀ a, isRecord a = true → a ≠ intentName reviewed → a ≠ receiptName reviewed →
    Same d d' a
  size : d'.files.size ≤ maxEntries

/-- The call stopped between the creation of its intent and the removal of its first target. -/
def StopsEarly (replies : List (Reply Seen)) : Prop :=
  Applied (afterDone 6 replies) ∧ ¬ Inside 8 (afterDone 6 replies)

/-- The call stopped inside its receipt. -/
def StopsLate (plan : DeletionPlan) (replies : List (Reply Seen)) : Prop :=
  Applied (afterDone (12 + 5 * plan.files.toList.length) replies) ∧
    ¬ Inside 3 (afterDone (12 + 5 * plan.files.toList.length) replies)

/-- **What one call leaves.** -/
inductive Left (O : Outside) (d : Directory) (names : List String) (reviewed : String)
    (replies : List (Reply Seen)) (d' : Directory) : Prop
  | untouched (h : d' = d)
  | removed (plan : DeletionPlan) (gone : List String) (g : File) (part : Bytes)
      (after : After O d names reviewed plan gone d') (written : Written part g)
      (start : part <+: plan.bytes) (intent : d'.files[intentName reviewed]? = some g)
      (receipt : Same d d' (receiptName reviewed))
      (stop : gone = [] ∧ StopsEarly replies ∨ gone ≠ [] ∧ part = plan.bytes)
  | receipted (plan : DeletionPlan) (g f : File) (part : Bytes)
      (after : After O d names reviewed plan plan.targets d') (intent : Written plan.bytes g)
      (intentFile : d'.files[intentName reviewed]? = some g) (written : Written part f)
      (start : part <+: toVec (receiptJson reviewed plan.files))
      (receipt : d'.files[receiptName reviewed]? = some f)
      (absent : d.files[receiptName reviewed]? = none)
      (stop : StopsLate plan replies ∨ part = toVec (receiptJson reviewed plan.files))

theorem size_put_le {name : String} {f : File} : (d.put name f).files.size ≤ d.files.size + 1 := by
  have := Std.ExtTreeMap.size_insert_le (t := d.files) (k := name) (v := f)
  exact this

theorem size_deleting_le :
    (deleting d reviewed g gone).files.size ≤ d.files.size + 1 :=
  (Table.size_eraseAll_le gone _).trans size_put_le

theorem Proceeds.not_record {a : String} (h : Proceeds O d names reviewed plan)
    (hgone : gone <+: plan.targets) (ha : isRecord a = true) : a ∉ gone := fun hin => by
  have hevidence := isEvidence_of_target h.planned (hgone.subset hin)
  rw [not_isRecord_of_isEvidence hevidence] at ha
  cases ha

theorem Proceeds.after (h : Proceeds O d names reviewed plan) (hgone : gone <+: plan.targets) :
    After O d names reviewed plan gone (deleting d reviewed g gone) := by
  refine ⟨h, hgone, rfl, fun a ha => ?_, fun a ha hintent _ => ?_, ?_⟩
  · have hne : intentName reviewed ≠ a := fun he => by
      rw [← he, isRecord_intentName] at ha
      cases ha
    rw [get_deleting, if_neg hne]
  · exact same_deleting (h.not_record hgone ha) hintent.symm
  · have := @size_deleting_le d reviewed gone g
    have := h.room
    omega

theorem Proceeds.after_receipt {g f : File} (h : Proceeds O d names reviewed plan) :
    After O d names reviewed plan plan.targets
      ((deleting d reviewed g plan.targets).put (receiptName reviewed) f) := by
  have hafter := h.after (g := g) (List.prefix_refl plan.targets)
  refine ⟨h, List.prefix_refl _, rfl, fun a ha => ?_, fun a ha hintent hreceipt => ?_, ?_⟩
  · have hne : receiptName reviewed ≠ a := fun he => by
      rw [← he, isRecord_receiptName] at ha
      cases ha
    rw [get_put, if_neg hne]
    exact hafter.others a ha
  · rw [Same, get_put, if_neg hreceipt.symm]
    exact hafter.records a ha hintent hreceipt
  · have hput := @size_put_le (deleting d reviewed g plan.targets) (receiptName reviewed) f
    have := @size_deleting_le d reviewed plan.targets g
    have := h.room
    omega

theorem Proceeds.intent (h : Proceeds O d names reviewed plan) (hgone : gone <+: plan.targets) :
    (deleting d reviewed g gone).files[intentName reviewed]? = some g := by
  rw [get_deleting, if_neg (h.not_record hgone (isRecord_intentName _)), if_pos rfl]

/-- **What `delete_retained_checked` leaves.** -/
theorem delete_left : Left O d names reviewed replies
    ((deleteRetainedChecked O names reviewed).leaves d replies) := by
  refine delete_leaves (.untouched rfl) (fun plan h happlied hnot g part hg hpart => ?_)
    (fun plan h g gone hg hne hgone => ?_) (fun plan h happlied hnot hnone g f part hg hf hpart => ?_)
    fun plan h hnone g f hg hf => ?_
  · exact .removed plan [] g part (h.after List.nil_prefix) hg hpart (h.intent List.nil_prefix)
      (same_deleting List.not_mem_nil (intentName_ne_receiptName _ _))
      (.inl ⟨rfl, happlied, hnot⟩)
  · exact .removed plan gone g plan.bytes (h.after hgone) hg (List.prefix_refl _) (h.intent hgone)
      (same_deleting (h.not_record hgone (isRecord_receiptName _)) (intentName_ne_receiptName _ _))
      (.inr ⟨hne, rfl⟩)
  · refine .receipted plan g f part h.after_receipt hg ?_ hf hpart Table.get_insert_self hnone
      (.inl ⟨happlied, hnot⟩)
    rw [get_put, if_neg (intentName_ne_receiptName _ _).symm]
    exact h.intent (List.prefix_refl _)
  · refine .receipted plan g f _ h.after_receipt hg ?_ hf (List.prefix_refl _) Table.get_insert_self
      hnone (.inr rfl)
    rw [get_put, if_neg (intentName_ne_receiptName _ _).symm]
    exact h.intent (List.prefix_refl _)

/-! ## What is kept -/

/-- **The ledger, the journal and what they refer to stay as they are.** -/
theorem After.pruned {l : Ledger} {gate : Gate} (h : After O d names reviewed plan gone d')
    (hl : readLedger d = .ok l) (hgate : openGate O d = .ok gate) : Pruned l gate d d' := by
  obtain ⟨l', gate', hplanned, hd⟩ := deletionPlan_eq_ok h.proceeds.planned
  obtain rfl := Except.ok.inj (hl.symm.trans hplanned.ledger)
  obtain rfl := Except.ok.inj (hgate.symm.trans hplanned.gate)
  have haccepted : ∀ a ∈ gone, accept O d l a = .ok () := fun a ha => by
    obtain ⟨i, hi⟩ := mem_targets.mp (h.targets.subset ha)
    exact hplanned.accepted a ((hd.files a i).mp hi).1
  have hsame : ∀ {a : String}, isRecord a = false → a ∉ gone → Same d d' a := fun ha hnot => by
    rw [Same, h.others _ ha, if_neg hnot]
  have hnot : ∀ {a : String}, isEvidence a = false → a ∉ gone := fun ha hin => by
    rw [accept_isEvidence (haccepted _ hin)] at ha
    cases ha
  refine ⟨h.identity, hsame (by decide) (hnot (by decide)), hsame (by decide) (hnot (by decide)),
    fun a ha => ?_, fun a ha => ?_, fun a ha hmem => ?_, h.size⟩
  · exact hsame (not_isRecord_of_startsWith (startsWith_archiveName a) (by decide) (by decide))
      fun hin => (accept_apart hgate (haccepted _ hin)).1 a ha rfl
  · exact hsame (not_isRecord_of_startsWith (startsWith_requestArchiveName a) (by decide)
      (by decide)) fun hin => (accept_apart hgate (haccepted _ hin)).2 a ha rfl
  · refine hsame ha fun hin => ?_
    obtain ⟨f, hf⟩ := Table.mem_iff_get.mp hmem
    rw [h.others a ha, if_pos hin] at hf
    cases hf

theorem Pruned.refl {l : Ledger} {gate : Gate} (h : d.files.size ≤ maxEntries) :
    Pruned l gate d d :=
  ⟨rfl, rfl, rfl, fun _ _ => rfl, fun _ _ => rfl, fun _ _ _ => rfl, h⟩

theorem Pruned.trans {l : Ledger} {gate : Gate} {d₁ d₂ d₃ : Directory} (h : Pruned l gate d₁ d₂)
    (h' : Pruned l gate d₂ d₃) : Pruned l gate d₁ d₃ :=
  ⟨h'.identity.trans h.identity, Eq.trans h'.ledger h.ledger, Eq.trans h'.requests h.requests,
    fun a ha => Eq.trans (h'.archives a ha) (h.archives a ha),
    fun a ha => Eq.trans (h'.requestArchives a ha) (h.requestArchives a ha),
    fun a ha hmem => Eq.trans (h'.kept a ha hmem) (h.kept a ha (h'.mem ha hmem)), h'.size⟩

/-! ## The records fit -/

theorem sizeBound_i64Json (n : Int64) : sizeBound (i64Json n) ≤ 20 := by
  have hle : -2 ^ 63 ≤ n.toInt := n.le_toInt
  have hlt : n.toInt < 2 ^ 63 := n.toInt_lt
  have hdigits : ∀ k : Nat, k ≤ 2 ^ 63 → (Nat.toDigits 10 k).length ≤ 19 := fun k hk =>
    (Nat.length_toDigits_le_iff (by decide) (by decide)).mpr (lt_of_le_of_lt hk (by decide))
  rw [i64Json, sizeBound, ← String.ofList_toList (s := toString n.toInt), toList_int]
  split
  · rw [utf8ByteSize_ofList_ascii fun _ => utf8Size_digit]
    exact (hdigits _ (by omega)).trans (by decide)
  · rw [utf8ByteSize_ofList_ascii (List.forall_mem_cons.mpr ⟨by decide, fun _ => utf8Size_digit⟩),
      List.length_cons]
    have := hdigits (-n.toInt).toNat (by omega)
    omega

theorem utf8ByteSize_digest (sha256 : Bytes → Vector UInt8 32) (bytes : Bytes) :
    (digest sha256 bytes).utf8ByteSize = 64 := by
  rw [digest, utf8ByteSize_hex, Vector.length_toList]

theorem isHash_review (p : DeletionPlan) : isHash (p.review O) = true :=
  isHash_hex (Vector.length_toList ..)

/-- An identity that was observed takes at most a kilobyte. -/
theorem sizeBound_identity {name : String} {i : Identity} (h : identity O d name = .ok i) :
    sizeBound i.toJson ≤ 1024 := by
  obtain ⟨f, -, -, rfl⟩ := identityOf_eq_ok.mp h
  have h1 := sizeBound_u64Json f.stat.device
  have h2 := sizeBound_u64Json f.stat.inode
  have h3 := sizeBound_u64Json (UInt64.ofNat f.bytes.length)
  have h4 := sizeBound_i64Json f.stat.modified
  have h5 := sizeBound_i64Json f.stat.modifiedNs
  have h6 := sizeBound_i64Json f.stat.changed
  have h7 := sizeBound_i64Json f.stat.changedNs
  have h8 : quoteBound (digest O.sha256 f.bytes) = 386 := by
    rw [quoteBound, utf8ByteSize_digest]
  have hkey : quoteBound "device" + quoteBound "inode" + quoteBound "length" +
    quoteBound "modified" + quoteBound "modified_ns" + quoteBound "changed" +
    quoteBound "changed_ns" + quoteBound "sha256" ≤ 400 := by decide
  simp only [Identity.toJson, File.observed, sizeBound, fieldBounds, h8]
  linarith only [h1, h2, h3, h4, h5, h6, h7, hkey]

/-- The files of a plan take at most 64 kilobytes. -/
theorem sizeBound_files (h : deletionPlan O d names = .ok plan) :
    sizeBound (filesJson plan.files) ≤ 65536 := by
  obtain ⟨l, gate, hplanned, hd⟩ := deletionPlan_eq_ok h
  have hentry : ∀ e ∈ plan.files.toList,
      quoteBound e.1 + 1 + sizeBound e.2.toJson + 1 ≤ 2300 := by
    intro e he
    obtain ⟨hname, hid⟩ := (hd.files e.1 e.2).mp (Table.mem_toList_iff_get.mp he)
    have hshort := accept_short (hplanned.accepted e.1 hname)
    have := sizeBound_identity hid
    rw [quoteBound]
    omega
  have hfields : ∀ es : List (String × Identity),
      (∀ e ∈ es, quoteBound e.1 + 1 + sizeBound e.2.toJson + 1 ≤ 2300) →
        fieldBounds (es.map fun e => (e.1, e.2.toJson)) ≤ 2300 * es.length := by
    intro es hes
    induction es with
    | nil => exact Nat.le_refl 0
    | cons e es ih =>
      obtain ⟨he, hes'⟩ := List.forall_mem_cons.mp hes
      have := ih hes'
      rw [List.map_cons, fieldBounds, List.length_cons]
      omega
  have hlength : plan.files.toList.length ≤ 16 := by
    rw [Std.ExtTreeMap.length_toList, hd.size]
    exact hplanned.few.2
  have := hfields _ hentry
  rw [filesJson, sizeBound]
  omega

/-- The words of a plan and a receipt around their files are few. -/
theorem length_bytes_le (h : deletionPlan O d names = .ok plan) :
    plan.bytes.length ≤ maxBytes := by
  obtain ⟨l, gate, hplanned, hd⟩ := deletionPlan_eq_ok h
  have hfiles := sizeBound_files h
  have hledger := sizeBound_identity hd.ledger
  have hrequests := sizeBound_identity hd.requests
  have h1 := sizeBound_u32Json plan.schemaVersion
  have h2 := sizeBound_u64Json plan.directory.1
  have h3 := sizeBound_u64Json plan.directory.2
  have hgeneration : (toString plan.generation).utf8ByteSize ≤ 20 := by
    refine utf8ByteSize_toString_le ?_
    rw [hd.generation]
    exact (readLedger_fits hplanned.ledger).generation
  have hkey : quoteBound "schema_version" + quoteBound "generation" + quoteBound "directory" +
    quoteBound "ledger" + quoteBound "requests" + quoteBound "files" ≤ 400 := by decide
  have hmax : maxBytes = 8388608 := rfl
  have hquote : quoteBound (toString plan.generation) ≤ 122 := by
    rw [quoteBound]
    omega
  refine (length_toVec_le plan.toJson).trans ?_
  simp only [DeletionPlan.toJson, sizeBound, sizeBounds, fieldBounds, pairJson, decimal]
  omega

theorem length_receipt_le (h : deletionPlan O d names = .ok plan)
    (hreview : plan.review O = reviewed) :
    (toVec (receiptJson reviewed plan.files)).length ≤ maxBytes := by
  have hfiles := sizeBound_files h
  have hsize := utf8ByteSize_of_isHash (hreview ▸ isHash_review plan)
  have hkey : quoteBound "schema_version" + quoteBound "review_sha256" + quoteBound "deleted" +
    quoteBound "authority_chain_preserved" + quoteBound "generation_preserved" +
    quoteBound "worker_resources_released" ≤ 800 := by decide
  have hone : sizeBound (.number 1) = 1 := by decide
  have hmax : maxBytes = 8388608 := rfl
  have hquote : quoteBound reviewed ≤ 400 := by
    rw [quoteBound]
    omega
  refine (length_toVec_le (receiptJson reviewed plan.files)).trans ?_
  rw [receiptJson, sizeBound_sorted]
  simp only [sizeBound, fieldBounds] at hone ⊢
  generalize quoteBound "schema_version" = n₁ at hkey ⊢
  generalize quoteBound "review_sha256" = n₂ at hkey ⊢
  generalize quoteBound "deleted" = n₃ at hkey ⊢
  generalize quoteBound "authority_chain_preserved" = n₄ at hkey ⊢
  generalize quoteBound "generation_preserved" = n₅ at hkey ⊢
  generalize quoteBound "worker_resources_released" = n₆ at hkey ⊢
  omega

/-- The lengths of at most sixteen files of eight megabytes do not overflow. -/
theorem inputBytes_ok (h : deletionPlan O d names = .ok plan) :
    ∃ n, plan.inputBytes = .ok n := by
  obtain ⟨l, gate, hplanned, hd⟩ := deletionPlan_eq_ok h
  have hshort : ∀ e ∈ plan.files.toList, e.2.length.toNat ≤ 2 ^ 23 := by
    intro e he
    obtain ⟨f, -, hexact, hobserved⟩ := identityOf_eq_ok.mp
      ((hd.files e.1 e.2).mp (Table.mem_toList_iff_get.mp he)).2
    rw [← hobserved]
    simp only [File.exact, Bool.and_eq_true, decide_eq_true_eq] at hexact
    have hmax : maxBytes = 2 ^ 23 := rfl
    change (UInt64.ofNat f.bytes.length).toNat ≤ _
    rw [UInt64.toNat_ofNat', ← hmax]
    exact (Nat.mod_le _ _).trans hexact.2
  have hloop : ∀ (es : List (String × Identity)) (sum : Nat),
      (∀ e ∈ es, e.2.length.toNat ≤ 2 ^ 23) → sum + 2 ^ 23 * es.length < 2 ^ 64 →
        ∃ n, es.foldlM (fun sum (e : String × Identity) => Resources.checkedAdd sum
          e.2.length.toNat "resource evidence size overflow") sum = .ok n := by
    intro es
    induction es with
    | nil => exact fun sum _ _ => ⟨sum, rfl⟩
    | cons e es ih =>
      intro sum hes hsum
      obtain ⟨he, hes'⟩ := List.forall_mem_cons.mp hes
      rw [List.length_cons] at hsum
      obtain ⟨n, hn⟩ := ih (sum + e.2.length.toNat) hes' (by omega)
      refine ⟨n, ?_⟩
      rw [List.foldlM_cons, Resources.checkedAdd, if_pos (by omega)]
      exact hn
  refine hloop _ 0 hshort ?_
  have hfew := hplanned.few.2
  rw [Std.ExtTreeMap.length_toList, hd.size]
  omega

theorem usage_ok (h : deletionPlan O d names = .ok plan) (hzero : plan.review O ≠ hex (zeros 32)) :
    ∃ u, plan.usage O = .ok u := by
  obtain ⟨l, gate, hplanned, hd⟩ := deletionPlan_eq_ok h
  obtain ⟨n, hn⟩ := inputBytes_ok h
  have hgeneration : UInt64.ofNat plan.generation ≠ 0 := fun he => by
    have hfits := (readLedger_fits hplanned.ledger).generation
    have hnat := congrArg UInt64.toNat he
    rw [hd.generation, UInt64.toNat_ofNat_of_lt' hfits] at hnat
    exact hplanned.released.1 hnat
  have hunits : UInt64.ofNat plan.files.size ≠ 0 := fun he => by
    have hnat := congrArg UInt64.toNat he
    have hfew := hplanned.few
    rw [hd.size, UInt64.toNat_ofNat_of_lt' (by rw [UInt64.size]; omega)] at hnat
    exact hfew.1 (List.length_eq_zero_iff.mp hnat)
  have hdigest : Governance.emptyDigest 32 (plan.review O) = .ok false := by
    rw [DeletionPlan.review, digest] at hzero ⊢
    rw [Governance.emptyDigest, decode_hex (Vector.length_toList ..)]
    refine congrArg Except.ok ?_
    rw [beq_eq_false_iff_ne]
    exact fun he => hzero (congrArg hex he)
  have hpermits : Governance.Selector.permits
      ⟨.resource, "resource-retention", UInt64.ofNat plan.generation, plan.review O⟩ .retain =
        true := rfl
  have hvalidate : Governance.Use.validate ⟨.retain, ⟨.resource, "resource-retention",
      UInt64.ofNat plan.generation, plan.review O⟩, UInt64.ofNat n, 0,
        UInt64.ofNat plan.files.size⟩ = .ok () := by
    have hselector : Governance.Selector.validate ⟨.resource, "resource-retention",
        UInt64.ofNat plan.generation, plan.review O⟩ = .ok () := by
      have hid : Governance.identifier "resource-retention" = true := by decide
      simp only [Governance.Selector.validate, bind_eq_ok, refuseIf_eq_ok]
      exact ⟨(), by simp [hid, hgeneration], false, hdigest, rfl⟩
    simp only [Governance.Use.validate, bind_eq_ok, refuseIf_eq_ok]
    exact ⟨(), hselector, by rw [hpermits]; simp [hunits]⟩
  refine ⟨⟨.retain, ⟨.resource, "resource-retention", UInt64.ofNat plan.generation, plan.review O⟩,
    UInt64.ofNat n, 0, UInt64.ofNat plan.files.size⟩, ?_⟩
  rw [DeletionPlan.usage, hn]
  exact bind_eq_ok.mpr ⟨n, rfl, bind_eq_ok.mpr ⟨(), hvalidate, rfl⟩⟩

/-- The plan of a call is one that an intent may hold. -/
theorem sound_of_planned (h : deletionPlan O d names = .ok plan)
    (hzero : plan.review O ≠ hex (zeros 32)) : plan.Sound O := by
  obtain ⟨l, gate, hplanned, hd⟩ := deletionPlan_eq_ok h
  have hsize : plan.files.size ≠ 0 := fun h0 => by
    rw [hd.size] at h0
    exact hplanned.few.1 (List.length_eq_zero_iff.mp h0)
  refine ⟨hd.schemaVersion, hd.generation ▸ hplanned.released.1, ?_, hd.size ▸ hplanned.few.2,
    usage_ok h hzero⟩
  rw [Std.ExtTreeMap.isEmpty_eq_size_beq_zero, beq_eq_false_iff_ne]
  exact hsize

/-! ## Settled directories -/

/-- A target is gone, or is not the file of the plan any more. -/
def Spent (O : Outside) (d : Directory) (p : DeletionPlan) : Prop :=
  ∃ (a : String) (i : Identity), p.files[a]? = some i ∧ isRecord a = false ∧ identity O d a ≠ .ok i

/-- **What a directory is between calls.** -/
structure Settled (O : Outside) (d : Directory) : Prop where
  outcomes : ∃ t, retentionOutcomes O d = .ok t
  receipts : ∀ r, receiptName r ∈ d.files → intentName r ∈ d.files
  spent : ∀ r p, readIntent O d r = .ok p → Spent O d p

theorem Spent.mono {p : DeletionPlan} (h : Spent O d p)
    (hsame : ∀ a, isRecord a = false → a ∈ d'.files → Same d d' a) : Spent O d' p := by
  obtain ⟨a, i, hi, ha, hne⟩ := h
  refine ⟨a, i, hi, ha, fun hid => hne ?_⟩
  obtain ⟨f, hf, -⟩ := identityOf_eq_ok.mp hid
  exact (hsame a ha (Table.mem_iff_get.mpr ⟨f, hf⟩)).identity.symm.trans hid

theorem After.kept (h : After O d names reviewed plan gone d') {a : String}
    (ha : isRecord a = false) (hmem : a ∈ d'.files) : Same d d' a := by
  obtain ⟨f, hf⟩ := Table.mem_iff_get.mp hmem
  rw [h.others a ha] at hf
  split at hf
  · cases hf
  · rename_i hnot
    rw [Same, h.others a ha, if_neg hnot]

/-- Another review's records are as they were. -/
theorem After.other (h : After O d names reviewed plan gone d') {r : String} (hr : r ≠ reviewed) :
    Same d d' (intentName r) ∧ Same d d' (receiptName r) :=
  ⟨h.records _ (isRecord_intentName r) (fun he => hr (intentName_inj he))
      (intentName_ne_receiptName _ _),
    h.records _ (isRecord_receiptName r) (intentName_ne_receiptName _ _).symm
      fun he => hr (receiptName_inj he)⟩

theorem readIntent_congr {r : String} (h : Same d d' (intentName r)) :
    readIntent O d' r = readIntent O d r := by
  rw [readIntent, readIntent, h.privateRead]

theorem readReceipt_congr {r : String} {p : DeletionPlan} (h : Same d d' (receiptName r)) :
    readReceipt d' r p = readReceipt d r p := by
  rw [readReceipt, readReceipt, h, h.privateRead]

theorem After.readLedger (h : After O d names reviewed plan gone d') :
    ∃ l, Evidence.readLedger d' = .ok l := by
  obtain ⟨l, gate, hplanned, -⟩ := deletionPlan_eq_ok h.proceeds.planned
  exact ⟨l, (h.pruned hplanned.ledger hplanned.gate).ledger.readLedger.trans hplanned.ledger⟩

/-- There is at most one intent more. -/
theorem After.intents (h : After O d names reviewed plan gone d') :
    d'.intents ≤ maxOutcomes := by
  obtain ⟨t, ht, hfew⟩ := h.proceeds.outcomes
  obtain ⟨-, -, hsize, -⟩ := retentionOutcomes_ok ht
  let c : String → Bool := fun a => (intended a).isSome
  have hle := (@countP_le (d.put (intentName reviewed) ⟨⟨true, 0, 0, 0, 0, 0, 0, 0, 0, 0⟩, []⟩)
    d' c) fun a ha hmem => ?_
  · have hput : (d.put (intentName reviewed) ⟨⟨true, 0, 0, 0, 0, 0, 0, 0, 0, 0⟩, []⟩).files.toList =
        _ := rfl
    obtain ⟨before, after, hold, hnew⟩ := Table.toList_insert_split
      (v := (⟨⟨true, 0, 0, 0, 0, 0, 0, 0, 0, 0⟩, []⟩ : File)) h.proceeds.fresh
    have hcount : (d.put (intentName reviewed)
        ⟨⟨true, 0, 0, 0, 0, 0, 0, 0, 0, 0⟩, []⟩).files.toList.countP (fun e => c e.1) ≤
          d.intents + 1 := by
      rw [Directory.intents, Directory.put, hnew, hold]
      simp only [List.countP_append, List.countP_cons]
      change _ ≤ List.countP (fun e => c e.1) before + List.countP (fun e => c e.1) after + 1
      split <;> omega
    have : d'.intents = d'.files.toList.countP fun e => c e.1 := rfl
    omega
  · obtain ⟨r, hr⟩ := Option.isSome_iff_exists.mp ha
    obtain rfl := intended_eq_some.mp hr
    rw [Table.mem_iff_get, get_put]
    by_cases hsame : intentName reviewed = intentName r
    · exact ⟨_, if_pos hsame⟩
    · rw [if_neg hsame]
      obtain ⟨f, hf⟩ := Table.mem_iff_get.mp hmem
      have hother := (h.other fun he => hsame (congrArg intentName he.symm)).1
      exact ⟨f, hother.symm.trans hf⟩

/-! ## A call that does not stop at the wrong moment -/

/-- **The intent of a call reads back as its plan.** -/
theorem After.readIntent (h : After O d names reviewed plan gone d') (hg : Written plan.bytes g)
    (hfile : d'.files[intentName reviewed]? = some g) (hzero : reviewed ≠ hex (zeros 32)) :
    readIntent O d' reviewed = .ok plan := by
  obtain ⟨l, gate, hplanned, hd⟩ := deletionPlan_eq_ok h.proceeds.planned
  have hreview := h.proceeds.review
  refine readIntent_eq_ok.mpr ⟨sound_of_planned h.proceeds.planned (hreview ▸ hzero), hreview,
    hd.generation ▸ (readLedger_fits hplanned.ledger).generation, g, hfile, ?_, hg.2⟩
  exact isPrivate_of_kept hg.1 (hg.2 ▸ length_bytes_le h.proceeds.planned)

/-- The inventory of outcomes with one intent more. -/
theorem After.outcomes (h : After O d names reviewed plan gone d')
    (hread : Evidence.readIntent O d' reviewed = .ok plan) {c : Bool}
    (hreceipt : readReceipt d' reviewed plan = .ok c) :
    ∃ t, retentionOutcomes O d' = .ok t := by
  obtain ⟨l, hl⟩ := h.readLedger
  refine retentionOutcomes_complete hl h.size h.intents fun r hr => ?_
  by_cases hsame : r = reviewed
  · subst hsame
    refine ⟨⟨plan.files, c⟩, ?_, plan, hread, hreceipt, rfl⟩
    rw [← h.proceeds.review]
    exact isHash_review plan
  · obtain ⟨hi, hrec⟩ := h.other hsame
    obtain ⟨t, ht, -⟩ := h.proceeds.outcomes
    obtain ⟨-, -, -, -, hrep, hlisted⟩ := retentionOutcomes_ok ht
    have hmem : intentName r ∈ d.files := by
      obtain ⟨f, hf⟩ := Table.mem_iff_get.mp hr
      exact Table.mem_iff_get.mpr ⟨f, hi.symm.trans hf⟩
    obtain ⟨o, ho⟩ := Table.mem_iff_get.mp ((hlisted r).mpr hmem)
    obtain ⟨hhash, p, hp, hc, htargets⟩ := hrep r o ho
    exact ⟨o, hhash, p, (readIntent_congr hi).trans hp, (readReceipt_congr hrec).trans hc, htargets⟩

/-- The first target is gone. -/
theorem After.spent (h : After O d names reviewed plan gone d') (hne : gone ≠ []) :
    Spent O d' plan := by
  obtain ⟨a, gone', rfl⟩ := List.exists_cons_of_ne_nil hne
  have ha := h.targets.subset List.mem_cons_self
  obtain ⟨i, hi⟩ := mem_targets.mp ha
  have hrecord := not_isRecord_of_isEvidence (isEvidence_of_target h.proceeds.planned ha)
  refine ⟨a, i, hi, hrecord, fun hid => ?_⟩
  obtain ⟨f, hf, -⟩ := identityOf_eq_ok.mp hid
  rw [h.others a hrecord, if_pos List.mem_cons_self] at hf
  cases hf

theorem After.settled {c : Bool} (h : After O d names reviewed plan gone d') (hd : Settled O d)
    (hne : gone ≠ []) (hg : Written plan.bytes g) (hfile : d'.files[intentName reviewed]? = some g)
    (hzero : reviewed ≠ hex (zeros 32)) (hreceipt : readReceipt d' reviewed plan = .ok c) :
    Settled O d' := by
  have hread := h.readIntent hg hfile hzero
  refine ⟨h.outcomes hread hreceipt, fun r hr => ?_, fun r p hp => ?_⟩
  · by_cases hsame : r = reviewed
    · exact hsame ▸ Table.mem_iff_get.mpr ⟨g, hfile⟩
    · obtain ⟨hi, hrec⟩ := h.other hsame
      obtain ⟨f, hf⟩ := Table.mem_iff_get.mp hr
      have hmem := hd.receipts r (Table.mem_iff_get.mpr ⟨f, hrec.symm.trans hf⟩)
      obtain ⟨f', hf'⟩ := Table.mem_iff_get.mp hmem
      exact Table.mem_iff_get.mpr ⟨f', Eq.trans hi hf'⟩
  · by_cases hsame : r = reviewed
    · subst hsame
      obtain rfl := Except.ok.inj (hread.symm.trans hp)
      exact h.spent hne
    · rw [readIntent_congr (h.other hsame).1] at hp
      exact (hd.spent r p hp).mono fun a ha hmem => h.kept ha hmem

/-- The call is not stopped between the creation of its intent and the removal of its first target,
nor inside its receipt, and its review is not the zero digest. -/
structure CallSpared (O : Outside) (d : Directory) (names : List String) (reviewed : String)
    (replies : List (Reply Seen)) : Prop where
  intent : ∀ plan, Proceeds O d names reviewed plan → Whole 8 (afterDone 6 replies)
  receipt : ∀ plan, Proceeds O d names reviewed plan →
    Whole 3 (afterDone (12 + 5 * plan.files.toList.length) replies)
  review : reviewed ≠ hex (zeros 32)

theorem not_mem_receipt (hd : Settled O d) (h : Proceeds O d names reviewed plan) :
    d.files[receiptName reviewed]? = none :=
  Table.not_mem_iff_get.mp fun hmem =>
    Table.not_mem_iff_get.mpr h.fresh (hd.receipts reviewed hmem)

/-- **Such a call leaves a settled directory.** -/
theorem Left.settled (h : Left O d names reviewed replies d') (hd : Settled O d)
    (hs : CallSpared O d names reviewed replies) : Settled O d' := by
  cases h with
  | untouched h => exact h ▸ hd
  | removed plan gone g part after written start intent receipt stop =>
    rcases stop with ⟨-, happlied, hnot⟩ | ⟨hne, rfl⟩
    · exact absurd (hs.intent plan after.proceeds happlied) hnot
    · have hnone := Eq.trans receipt (not_mem_receipt hd after.proceeds)
      exact after.settled hd hne written intent hs.review (readReceipt_of_none hnone)
  | receipted plan g f part after intent intentFile written start receipt absent stop =>
    rcases stop with ⟨happlied, hnot⟩ | rfl
    · exact absurd (hs.receipt plan after.proceeds happlied) hnot
    · obtain ⟨l, gate, hplanned, hdesc⟩ := deletionPlan_eq_ok after.proceeds.planned
      have hne : plan.targets ≠ [] := fun hnil => by
        have hlength := congrArg List.length hnil
        rw [DeletionPlan.targets, List.length_map, Std.ExtTreeMap.length_toList, hdesc.size] at hlength
        exact hplanned.few.1 (List.length_eq_zero_iff.mp hlength)
      refine after.settled hd hne intent intentFile hs.review
        (readReceipt_eq_true.mpr ⟨f, receipt, ?_, written.2⟩)
      exact isPrivate_of_kept written.1
        (written.2 ▸ length_receipt_le after.proceeds.planned after.proceeds.review)

end LumaOS.Evidence
