import LumaOS.Evidence.Plan

/-!
# The records of a deletion read back

The bytes of an intent decode to its plan, `retention_outcomes` is a scan of the intents, and a
listing of at most 512 entries sees all of them.

* `decodeAs_bytes`: a plan's own bytes decode to it.
* `readIntent_eq_ok`, `retentionOutcomes_ok`: what an intent, and what the inventory of outcomes,
  has to be.
-/

namespace LumaOS.Evidence

open LumaOS.Base LumaOS.Text LumaOS.Json
open LumaOS.Resources (Ledger)

/-! ## The codec -/

@[simp] theorem asI64_i64Json (n : Int64) : Value.asI64 (i64Json n) = some n := by
  have hle : -2 ^ 63 ≤ n.toInt := n.le_toInt
  have hlt : n.toInt < 2 ^ 63 := n.toInt_lt
  simp only [i64Json, Value.asI64]
  rw [if_pos ⟨hle, hlt⟩, Int64.ofInt_toInt]

@[simp] theorem asPair_pairJson (p : UInt64 × UInt64) : Value.asPair (pairJson p) = some p := by
  simp [pairJson, Value.asPair]

@[simp] theorem Identity.ofJson_toJson (i : Identity) : Identity.ofJson i.toJson = some i := by
  simp [Identity.ofJson, Identity.toJson, Value.get]

theorem asTable_filesJson (t : Table Identity) :
    (filesJson t).asTable Identity.ofJson = some t :=
  asTable_toList fun _ i _ => i.ofJson_toJson

namespace DeletionPlan

theorem ofJson_toJson {p : DeletionPlan} (h : p.generation < 2 ^ 64) :
    ofJson p.toJson = some p := by
  simp [ofJson, toJson, Value.get, asDecimal_decimal h, asTable_filesJson]

theorem depth_toJson (p : DeletionPlan) : depth p.toJson ≤ maxDepth := by
  have hidentity : ∀ i : Identity, depth i.toJson ≤ 1 := fun _ => Nat.le_refl 1
  have hfiles := fieldDepths_map hidentity p.files.toList
  have hledger := hidentity p.ledger
  have hrequests := hidentity p.requests
  have hpair : depth (pairJson p.directory) = 1 := rfl
  have hnumber : depth (u32Json p.schemaVersion) = 0 := rfl
  have hmax : maxDepth = 127 := rfl
  simp only [toJson, filesJson, depth, fieldDepths, decimal]
  omega

/-- **A plan's own bytes decode to it.** -/
theorem decodeAs_bytes {p : DeletionPlan} (h : p.generation < 2 ^ 64) :
    decodeAs ofJson p.bytes = some p := by
  rw [bytes, decodeAs_toVec p.depth_toJson, ofJson_toJson h]

theorem fits_of_decodeAs {bytes : Bytes} {p : DeletionPlan}
    (h : decodeAs ofJson bytes = some p) : p.generation < 2 ^ 64 := by
  unfold decodeAs at h
  split at h
  · simp only [ofJson, Option.bind_eq_bind, Option.bind_eq_some_iff, Option.pure_def,
      Option.some.injEq] at h
    obtain ⟨_, -, _, h, _, -, _, -, _, -, _, -, rfl⟩ := h
    exact lt_of_asDecimal h
  · cases h

end DeletionPlan

/-! ## Listing the directory -/

variable {O : Outside} {d : Directory}

/-- **A scan sees every entry.** -/
theorem scan_eq_ok {α : Type} {message : String} {step : α → String × File → Result α}
    {start last : α} : scan message step start d = .ok last ↔
      d.files.size ≤ maxEntries ∧ d.files.toList.foldlM step start = .ok last := by
  simp only [scan, bind_eq_ok, pure_eq_ok, refuseIf_eq_ok, decide_eq_false_iff_not, not_lt]
  constructor
  · rintro ⟨_, hloop, -, hsize, rfl⟩
    rw [List.take_of_length_le (by rwa [Std.ExtTreeMap.length_toList])] at hloop
    exact ⟨hsize, hloop⟩
  · rintro ⟨hsize, hloop⟩
    rw [List.take_of_length_le (by rwa [Std.ExtTreeMap.length_toList])]
    exact ⟨last, hloop, (), hsize, rfl⟩

/-- A loop that checks each entry and counts some of them up to a bound. -/
theorem foldlM_counted {α : Type} {f : Nat → α → Result Nat} {P : α → Prop} {c : α → Bool}
    {bound : Nat}
    (hf : ∀ n a k, n ≤ bound →
      (f n a = .ok k ↔ P a ∧ k = n + (if c a then 1 else 0) ∧ k ≤ bound)) :
    ∀ {l : List α} {n k : Nat}, n ≤ bound →
      (l.foldlM f n = .ok k ↔ (∀ a ∈ l, P a) ∧ k = n + l.countP c ∧ k ≤ bound)
  | [], n, k, hn => by
    simp only [List.foldlM_nil, pure_eq_ok, List.not_mem_nil, false_implies, implies_true,
      true_and, List.countP_nil, Nat.add_zero]
    exact ⟨fun h => ⟨h.symm, h ▸ hn⟩, fun h => h.1.symm⟩
  | a :: l, n, k, hn => by
    rw [List.foldlM_cons, bind_eq_ok, List.countP_cons]
    constructor
    · rintro ⟨m, hm, hrest⟩
      obtain ⟨ha, rfl, hbound⟩ := (hf n a m hn).mp hm
      obtain ⟨hl, hk, hkb⟩ := (foldlM_counted hf hbound).mp hrest
      exact ⟨List.forall_mem_cons.mpr ⟨ha, hl⟩, by omega, hkb⟩
    · rintro ⟨hall, hk, hkb⟩
      obtain ⟨ha, hl⟩ := List.forall_mem_cons.mp hall
      have hbound : n + (if c a then 1 else 0) ≤ bound := by omega
      exact ⟨_, (hf n a _ hn).mpr ⟨ha, rfl, hbound⟩,
        (foldlM_counted hf hbound).mpr ⟨hl, by omega, hkb⟩⟩

/-! ## The names of records -/

theorem intended_eq_some {name reviewed : String} :
    intended name = some reviewed ↔ name = intentName reviewed := by
  simp only [intended, Option.bind_eq_some_iff, stripPrefix_eq_some, stripSuffix_eq_some]
  constructor
  · rintro ⟨_, rfl, rfl⟩
    rw [intentName, String.append_assoc]
  · rintro rfl
    exact ⟨reviewed ++ ".intent.json", by rw [intentName, String.append_assoc], rfl⟩

theorem intentName_inj {a b : String} (h : intentName a = intentName b) : a = b :=
  Option.some.inj ((intended_eq_some.mpr rfl).symm.trans (intended_eq_some.mpr h))

theorem receiptName_inj {a b : String} (h : receiptName a = receiptName b) : a = b :=
  (String.append_right_inj _).mp ((String.append_left_inj _).mp h)

theorem intended_receiptName (reviewed : String) : intended (receiptName reviewed) = none := by
  rw [Option.eq_none_iff_forall_ne_some]
  intro other h
  have hname := intended_eq_some.mp h
  have hlist := congrArg (fun s => s.toList.reverse.take 8) hname
  simp [intentName, receiptName] at hlist

theorem intentName_ne_receiptName (a b : String) : intentName a ≠ receiptName b := fun h => by
  have := intended_eq_some.mpr h.symm
  rw [intended_receiptName] at this
  cases this

/-- The name belongs to the record of deletions. -/
def isRecord (name : String) : Bool := startsWith ".retention-" name

theorem isRecord_intentName (reviewed : String) : isRecord (intentName reviewed) = true :=
  startsWith_iff.mpr ⟨reviewed ++ ".intent.json", by rw [intentName, String.append_assoc]⟩

theorem isRecord_receiptName (reviewed : String) : isRecord (receiptName reviewed) = true :=
  startsWith_iff.mpr ⟨reviewed ++ ".receipt.json", by rw [receiptName, String.append_assoc]⟩

/-! ## Intents -/

theorem find_eq_ok {name : String} {f : File} : d.find name = .ok f ↔ d.files[name]? = some f :=
  okOr_eq_ok

theorem privateRead_eq_ok {limit : Nat} {name : String} {bytes : Bytes} :
    d.privateRead limit name = .ok bytes ↔
      ∃ f, d.files[name]? = some f ∧ f.isPrivate limit = true ∧ f.bytes = bytes := by
  simp only [Directory.privateRead, bind_eq_ok, pure_eq_ok, find_eq_ok, refuseIf_eq_ok,
    Bool.not_eq_false']
  constructor
  · rintro ⟨f, hf, -, hp, rfl⟩
    exact ⟨f, hf, hp, rfl⟩
  · rintro ⟨f, hf, hp, rfl⟩
    exact ⟨f, hf, (), hp, rfl⟩

theorem identityOf_eq_ok {sha256 : Bytes → Vector UInt8 32} {limit : Nat} {message name : String}
    {i : Identity} : d.identityOf sha256 limit message name = .ok i ↔
      ∃ f, d.files[name]? = some f ∧ f.exact limit = true ∧ f.observed sha256 = i := by
  simp only [Directory.identityOf, bind_eq_ok, pure_eq_ok, find_eq_ok, refuseIf_eq_ok,
    Bool.not_eq_false']
  constructor
  · rintro ⟨f, hf, -, hp, rfl⟩
    exact ⟨f, hf, hp, rfl⟩
  · rintro ⟨f, hf, hp, rfl⟩
    exact ⟨f, hf, (), hp, rfl⟩

/-- A ledger that was read is one of machine words. -/
theorem readLedger_fits {l : Ledger} (h : readLedger d = .ok l) : l.Fits := by
  simp only [readLedger, bind_eq_ok, okOr_eq_ok, pure_eq_ok] at h
  obtain ⟨_, -, _, hdecode, _, -, _, -, rfl⟩ := h
  unfold decodeAs at hdecode
  split at hdecode
  · exact Resources.Ledger.fits_of_ofJson hdecode
  · cases hdecode

/-- The plans that an intent may hold. -/
structure DeletionPlan.Sound (O : Outside) (p : DeletionPlan) : Prop where
  schemaVersion : p.schemaVersion = 1
  generation : p.generation ≠ 0
  files : p.files.isEmpty = false
  few : p.files.size ≤ 16
  usage : ∃ u, p.usage O = .ok u

/-- **What an intent has to be.** -/
theorem readIntent_eq_ok {reviewed : String} {p : DeletionPlan} :
    readIntent O d reviewed = .ok p ↔ p.Sound O ∧ p.review O = reviewed ∧ p.generation < 2 ^ 64 ∧
      ∃ f, d.files[intentName reviewed]? = some f ∧ f.isPrivate maxBytes = true ∧
        f.bytes = p.bytes := by
  simp only [readIntent, bind_eq_ok, pure_eq_ok, privateRead_eq_ok, okOr_eq_ok, refuseIf_eq_ok,
    Bool.or_eq_false_iff, bne_eq_false_iff_eq, beq_eq_false_iff_ne, decide_eq_false_iff_not, not_lt]
  constructor
  · rintro ⟨_, ⟨f, hf, hp, rfl⟩, q, hq, -, ⟨⟨⟨⟨⟨h1, h2⟩, h3⟩, h4⟩, h5⟩, h6⟩, u, hu, rfl⟩
    exact ⟨⟨h1, h2, h3, h4, u, hu⟩, h5, DeletionPlan.fits_of_decodeAs hq, f, hf, hp, h6.symm⟩
  · rintro ⟨⟨h1, h2, h3, h4, u, hu⟩, h5, hfits, f, hf, hp, hbytes⟩
    refine ⟨_, ⟨f, hf, hp, rfl⟩, p, ?_, (), ⟨⟨⟨⟨⟨h1, h2⟩, h3⟩, h4⟩, h5⟩, hbytes.symm⟩, u, hu, rfl⟩
    rw [hbytes, DeletionPlan.decodeAs_bytes hfits]

/-! ## Outcomes -/

theorem readReceipt_eq_true {reviewed : String} {p : DeletionPlan} :
    readReceipt d reviewed p = .ok true ↔ ∃ f, d.files[receiptName reviewed]? = some f ∧
      f.isPrivate maxBytes = true ∧ f.bytes = toVec (receiptJson reviewed p.files) := by
  unfold readReceipt
  split
  · rename_i hnone
    simp [hnone, pure_eq_ok]
  · simp only [bind_eq_ok, pure_eq_ok, privateRead_eq_ok, refuseIf_eq_ok, bne_eq_false_iff_eq,
      and_true]
    constructor
    · rintro ⟨_, ⟨f, hf, hp, rfl⟩, -, hbytes⟩
      exact ⟨f, hf, hp, hbytes.symm⟩
    · rintro ⟨f, hf, hp, hbytes⟩
      exact ⟨_, ⟨f, hf, hp, rfl⟩, (), hbytes.symm⟩

theorem readReceipt_of_none {reviewed : String} {p : DeletionPlan}
    (h : d.files[receiptName reviewed]? = none) : readReceipt d reviewed p = .ok false := by
  unfold readReceipt
  rw [h]
  rfl

/-- What one outcome reports. -/
def Reported (O : Outside) (d : Directory) (reviewed : String) (o : Outcome) : Prop :=
  isHash reviewed = true ∧ ∃ p, readIntent O d reviewed = .ok p ∧
    readReceipt d reviewed p = .ok o.confirmed ∧ o.targets = p.files

theorem outcomeStep_eq_ok {t t' : Table Outcome} {e : String × File} {reviewed : String}
    (h : intended e.1 = some reviewed) : outcomeStep O d t e = .ok t' ↔
      t.size < maxOutcomes ∧ ∃ o, Reported O d reviewed o ∧ t' = t.insert reviewed o := by
  simp only [outcomeStep, h, bind_eq_ok, pure_eq_ok, refuseIf_eq_ok, Bool.or_eq_false_iff,
    Bool.not_eq_false', decide_eq_false_iff_not, not_le, ge_iff_le]
  constructor
  · rintro ⟨-, ⟨hhash, hsize⟩, p, hp, c, hc, rfl⟩
    exact ⟨hsize, ⟨p.files, c⟩, ⟨hhash, p, hp, hc, rfl⟩, rfl⟩
  · rintro ⟨hsize, ⟨targets, c⟩, ⟨hhash, p, hp, hc, rfl⟩, rfl⟩
    exact ⟨(), ⟨hhash, hsize⟩, p, hp, c, hc, rfl⟩

theorem size_insert_new {t : Table Outcome} {r : String} {o : Outcome} (h : r ∉ t) :
    (t.insert r o).size = t.size + 1 := by
  rw [Std.ExtTreeMap.size_insert, if_neg fun hr => h (Std.ExtTreeMap.mem_iff_contains.mpr hr)]

/-- The entry is an intent. -/
def isIntent (e : String × File) : Bool := (intended e.1).isSome

/-- The number of intents. -/
def Directory.intents (d : Directory) : Nat := d.files.toList.countP isIntent

/-- What a scan of different entries makes of the outcomes it starts with. -/
structure Scanned (O : Outside) (d : Directory) (l : List (String × File)) (t t' : Table Outcome) :
    Prop where
  size : t'.size = t.size + l.countP isIntent
  bounded : t.size ≤ maxOutcomes → t'.size ≤ maxOutcomes
  reported : ∀ (r : String) o, t'[r]? = some o →
    t[r]? = some o ∨ (∃ e ∈ l, intended e.1 = some r) ∧ Reported O d r o
  listed : ∀ e ∈ l, ∀ r, intended e.1 = some r → r ∈ t'
  kept : ∀ r, r ∈ t → r ∈ t'

/-- No entry of the list is reported yet. -/
def Fresh (l : List (String × File)) (t : Table Outcome) : Prop :=
  ∀ e ∈ l, ∀ r, intended e.1 = some r → r ∉ t

theorem Fresh.insert {e : String × File} {l : List (String × File)} {t : Table Outcome}
    {reviewed : String} {o : Outcome} (h : Fresh (e :: l) t) (he : intended e.1 = some reviewed)
    (hnodup : ((e :: l).map Prod.fst).Nodup) : Fresh l (t.insert reviewed o) := by
  intro e' he' r hr hmem
  rw [Std.ExtTreeMap.mem_insert, Std.compare_eq_iff_eq] at hmem
  rcases hmem with rfl | hmem
  · have hname : e'.1 = e.1 := (intended_eq_some.mp hr).trans (intended_eq_some.mp he).symm
    rw [List.map_cons, List.nodup_cons] at hnodup
    exact hnodup.1 (hname ▸ List.mem_map_of_mem he')
  · exact h e' (List.mem_cons_of_mem e he') r hr hmem

theorem outcomes_scanned : ∀ {l : List (String × File)} {t t' : Table Outcome},
    (l.map Prod.fst).Nodup → Fresh l t → l.foldlM (outcomeStep O d) t = .ok t' →
      Scanned O d l t t'
  | [], t, t', _, _, h => by
    obtain rfl : t = t' := pure_eq_ok.mp h
    exact ⟨rfl, id, fun _ _ => .inl, fun _ he => absurd he List.not_mem_nil, fun _ => id⟩
  | e :: l, t, t', hnodup, hfresh, h => by
    rw [List.foldlM_cons, bind_eq_ok] at h
    obtain ⟨u, hu, hrest⟩ := h
    have hnodup' := (List.nodup_cons.mp hnodup).2
    cases he : intended e.1 with
    | none =>
      obtain rfl : t = u := by simpa [outcomeStep, he, pure_eq_ok] using hu
      have := outcomes_scanned hnodup' (fun e' he' => hfresh e' (List.mem_cons_of_mem e he')) hrest
      have hcount : (e :: l).countP isIntent = l.countP isIntent :=
        List.countP_cons_of_neg (by simp [isIntent, he])
      refine ⟨by rw [this.size, hcount], this.bounded, fun r o ho => ?_, fun e' he' r hr => ?_,
        this.kept⟩
      · rcases this.reported r o ho with ho | ⟨⟨e', he', hr⟩, hrep⟩
        · exact .inl ho
        · exact .inr ⟨⟨e', List.mem_cons_of_mem e he', hr⟩, hrep⟩
      · rcases List.mem_cons.mp he' with rfl | he'
        · rw [he] at hr
          cases hr
        · exact this.listed e' he' r hr
    | some reviewed =>
      obtain ⟨hsize, o, hrep, rfl⟩ := (outcomeStep_eq_ok he).mp hu
      have hnew := hfresh e List.mem_cons_self reviewed he
      have := outcomes_scanned hnodup' (hfresh.insert he hnodup) hrest
      have hcount : (e :: l).countP isIntent = l.countP isIntent + 1 :=
        List.countP_cons_of_pos (by simp [isIntent, he])
      have hinsert : (t.insert reviewed o).size = t.size + 1 := size_insert_new hnew
      refine ⟨by rw [this.size, hcount, hinsert]; omega, fun _ => this.bounded (by omega),
        fun r o' ho' => ?_, fun e' he' r hr => ?_, fun r hr => this.kept r ?_⟩
      · rcases this.reported r o' ho' with hins | ⟨⟨e', he', hr⟩, hrep'⟩
        · rw [Table.get_insert] at hins
          split at hins
          · rename_i hkey
            cases hins
            exact .inr ⟨⟨e, List.mem_cons_self, hkey ▸ he⟩, hkey ▸ hrep⟩
          · exact .inl hins
        · exact .inr ⟨⟨e', List.mem_cons_of_mem e he', hr⟩, hrep'⟩
      · rcases List.mem_cons.mp he' with rfl | he'
        · obtain rfl : reviewed = r := Option.some.inj (he.symm.trans hr)
          exact this.kept _ Std.ExtTreeMap.mem_insert_self
        · exact this.listed e' he' r hr
      · exact Std.ExtTreeMap.mem_insert.mpr (.inr hr)

theorem outcomes_complete : ∀ {l : List (String × File)} {t : Table Outcome},
    (l.map Prod.fst).Nodup → Fresh l t → t.size + l.countP isIntent ≤ maxOutcomes →
      (∀ e ∈ l, ∀ r, intended e.1 = some r → ∃ o, Reported O d r o) →
        ∃ t', l.foldlM (outcomeStep O d) t = .ok t'
  | [], t, _, _, _, _ => ⟨t, rfl⟩
  | e :: l, t, hnodup, hfresh, hsize, hrep => by
    have hnodup' := (List.nodup_cons.mp hnodup).2
    have hrep' : ∀ e' ∈ l, ∀ r, intended e'.1 = some r → ∃ o, Reported O d r o :=
      fun e' he' => hrep e' (List.mem_cons_of_mem e he')
    rw [List.foldlM_cons]
    cases he : intended e.1 with
    | none =>
      rw [List.countP_cons_of_neg (by simp [isIntent, he])] at hsize
      obtain ⟨t', ht'⟩ := outcomes_complete hnodup'
        (fun e' he' => hfresh e' (List.mem_cons_of_mem e he')) hsize hrep'
      refine ⟨t', ?_⟩
      rw [show outcomeStep O d t e = .ok t by simp [outcomeStep, he]; rfl]
      exact ht'
    | some reviewed =>
      obtain ⟨o, ho⟩ := hrep e List.mem_cons_self reviewed he
      rw [List.countP_cons_of_pos (by simp [isIntent, he])] at hsize
      have hinsert : (t.insert reviewed o).size = t.size + 1 :=
        size_insert_new (hfresh e List.mem_cons_self reviewed he)
      obtain ⟨t', ht'⟩ := outcomes_complete hnodup' (hfresh.insert (o := o) he hnodup)
        (by omega) hrep'
      refine ⟨t', ?_⟩
      rw [(outcomeStep_eq_ok he).mpr ⟨by omega, o, ho, rfl⟩]
      exact ht'

theorem fresh_empty (l : List (String × File)) : Fresh l ∅ :=
  fun _ _ _ _ => Std.ExtTreeMap.not_mem_empty

/-- **What `retention_outcomes` reports.** -/
theorem retentionOutcomes_ok {t : Table Outcome} (h : retentionOutcomes O d = .ok t) :
    (∃ l, readLedger d = .ok l) ∧ d.files.size ≤ maxEntries ∧ t.size = d.intents ∧
      t.size ≤ maxOutcomes ∧ (∀ (r : String) o, t[r]? = some o → Reported O d r o) ∧
      ∀ r, r ∈ t ↔ intentName r ∈ d.files := by
  simp only [retentionOutcomes, bind_eq_ok] at h
  obtain ⟨l, hl, hscan⟩ := h
  obtain ⟨hsize, hloop⟩ := scan_eq_ok.mp hscan
  have hscanned := outcomes_scanned Table.nodup_fst_toList (fresh_empty _) hloop
  have hempty : (∅ : Table Outcome).size = 0 := Std.ExtTreeMap.size_empty
  have hget : ∀ (r : String) o, t[r]? = some o →
      (∃ e ∈ d.files.toList, intended e.1 = some r) ∧ Reported O d r o := by
    intro r o ho
    rcases hscanned.reported r o ho with hnone | hrep
    · rw [Std.ExtTreeMap.getElem?_empty] at hnone
      cases hnone
    · exact hrep
  refine ⟨⟨l, hl⟩, hsize, by rw [hscanned.size, hempty, Nat.zero_add]; rfl,
    hscanned.bounded (by rw [hempty]; exact Nat.zero_le _), fun r o ho => (hget r o ho).2,
    fun r => ⟨fun hr => ?_, fun hr => ?_⟩⟩
  · obtain ⟨o, ho⟩ := Table.mem_iff_get.mp hr
    obtain ⟨⟨e, he, hname⟩, -⟩ := hget r o ho
    rw [← intended_eq_some.mp hname]
    exact Table.mem_iff_get.mpr ⟨e.2, Table.mem_toList_iff_get.mp he⟩
  · obtain ⟨f, hf⟩ := Table.mem_iff_get.mp hr
    exact hscanned.listed (intentName r, f) (Table.mem_toList_iff_get.mpr hf) r
      (intended_eq_some.mpr rfl)

/-- **When `retention_outcomes` succeeds.** -/
theorem retentionOutcomes_complete {l : Ledger} (hl : readLedger d = .ok l)
    (hsize : d.files.size ≤ maxEntries) (hfew : d.intents ≤ maxOutcomes)
    (hrep : ∀ r, intentName r ∈ d.files → ∃ o, Reported O d r o) :
    ∃ t, retentionOutcomes O d = .ok t := by
  have hempty : (∅ : Table Outcome).size = 0 := Std.ExtTreeMap.size_empty
  obtain ⟨t, ht⟩ := outcomes_complete (O := O) (d := d) (l := d.files.toList) (t := ∅)
    Table.nodup_fst_toList (fresh_empty _) (by rw [hempty, Nat.zero_add]; exact hfew)
    fun e he r hr => hrep r (by
      rw [← intended_eq_some.mp hr]
      exact Table.mem_iff_get.mpr ⟨e.2, Table.mem_toList_iff_get.mp he⟩)
  refine ⟨t, ?_⟩
  simp only [retentionOutcomes, bind_eq_ok]
  exact ⟨l, hl, scan_eq_ok.mpr ⟨hsize, ht⟩⟩

end LumaOS.Evidence
