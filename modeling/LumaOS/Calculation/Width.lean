import LumaOS.Calculation.Batch
import LumaOS.Json.Escaped

/-!
# How long a report is

The report of a batch is as long as its groups are many.

* `reportWidth rs` is the size of the report of the records `rs`: one line of at least seventy bytes
  for each month and currency that occurs.
* `weight_report`: the texts of a report need no escape, so its size is exact, and so is the size
  that it takes in an envelope.
* `report_eq_ok`: whichever calculation the profile names, a report is that of the records of its
  input; `Reported.weight` is its size.
-/

namespace LumaOS.Calculation

open LumaOS.Base LumaOS.Text LumaOS.Json Std

/-! ## The worker's calculation -/

/-- Which calculation the profile names. -/
inductive Profile where
  | single
  | batch
deriving DecidableEq, Repr

/-- The report that the worker computes. -/
def Profile.report (sha256 : Bytes → Bytes) (bytes : Bytes) : Profile → Result Bytes
  | .single => reportBytes sha256 bytes
  | .batch => batchReport sha256 bytes

/-- The records of the worker's input. -/
def inputRecords (bytes : Bytes) : Profile → Result (List (Key × Int))
  | .single => recordsOf bytes
  | .batch => do
    let batch ← okOr (decodeAs Batch.ofJson bytes) unreadable
    allRecords (sourceBytes batch.sources)

/-! ## The width of a report -/

/-- How many digits a number has. -/
def printed (n : Nat) : Nat := (Nat.toDigits 10 n).length

/-- A sign, the digits, a point and two places. -/
def amountWidth (v : Int) : Nat := (if v < 0 then 1 else 0) + printed (v.natAbs / 100) + 3

/-- The line of a month and currency, with its comma. -/
def lineWidth (rs : List (Key × Int)) (k : Key) : Nat :=
  65 + printed (count rs k) + amountWidth (total rs k)

/-- **The size of the report of these records.** -/
def reportWidth (rs : List (Key × Int)) : Nat :=
  165 + printed rs.length + (((rs.map Prod.fst).dedup).map (lineWidth rs)).sum

section

variable {sha256 : Bytes → Bytes} {bytes report : Bytes} {rs : List (Key × Int)} {totals : Totals}
  {groups : List Group} {g : Group} {r : Report} {v : Int} {s t : String}
  {k : Key} {profile : Profile}

/-! ## Texts that need no escape -/

/-- A character that is copied as one byte. -/
def Copied (c : Char) : Prop := escape c = c.toString ∧ c.utf8Size = 1

theorem copied_of_ascii {c : Char} (hlow : 45 ≤ c.toNat) (hhigh : c.toNat < 91) : Copied c := by
  refine ⟨escape_verbatim (by omega) ?_ ?_, ?_⟩
  · rintro rfl
    exact absurd hlow (by decide)
  · rintro rfl
    exact absurd hhigh (by decide)
  · rw [Char.utf8Size_eq_one_iff, UInt32.le_iff_toNat_le]
    change c.toNat ≤ 127
    omega

theorem copied_digit {c : Char} (h : c.isDigit = true) : Copied c := by
  have hc := Char.isDigit_iff_toNat.mp h
  have h0 : '0'.toNat = 48 := rfl
  have h9 : '9'.toNat = 57 := rfl
  exact copied_of_ascii (by omega) (by omega)

theorem verbatim_of_copied {cs : List Char} (h : ∀ c ∈ cs, Copied c) :
    Verbatim (String.ofList cs) ∧ (String.ofList cs).utf8ByteSize = cs.length := by
  constructor
  · intro c hc
    rw [String.toList_ofList] at hc
    exact (h c hc).1
  · exact utf8ByteSize_ofList_ascii fun c hc => (h c hc).2

theorem verbatim_hash (h : isHash s = true) : Verbatim s ∧ s.utf8ByteSize = 64 := by
  rw [isHash, Bool.and_eq_true, beq_iff_eq, List.all_eq_true] at h
  refine ⟨fun c hc => ?_, h.1⟩
  obtain ⟨hlow, hhigh, -⟩ | ⟨hlow, hhigh, -⟩ := lowerHex_cases (h.2 c hc)
  · exact (copied_of_ascii (by omega) (by omega)).1
  · refine escape_verbatim (by omega) ?_ ?_
    · rintro rfl
      exact absurd hlow (by decide)
    · rintro rfl
      exact absurd hlow (by decide)

/-- The texts of a key are copied, seven bytes of month and three of currency. -/
structure KeyText (k : Key) : Prop where
  month : Verbatim k.1
  monthSize : k.1.utf8ByteSize = 7
  currency : Verbatim k.2
  currencySize : k.2.utf8ByteSize = 3

theorem dateMonth_text {value month : String} (h : dateMonth value = .ok month) :
    Verbatim month ∧ month.utf8ByteSize = 7 := by
  obtain rfl := dateMonth_eq_ok h
  simp only [dateMonth, bind_eq_ok, refuseIf_eq_ok, Bool.or_eq_false_iff, bne_eq_false_iff_eq,
    List.any_eq_false, Bool.and_eq_true, bne_iff_ne, ne_eq, Bool.not_eq_true'] at h
  obtain ⟨-, ⟨⟨⟨hlength, hfirst⟩, hsecond⟩, hall⟩, -⟩ := h
  have hbyte : ∀ b ∈ bytesOf value.toList, b = 45 ∨ asciiDigit b = true := by
    intro b hb
    obtain ⟨i, hi, rfl⟩ := List.mem_iff_getElem.mp hb
    by_cases h4 : i = 4
    · subst h4
      rw [List.getElem?_eq_getElem hi] at hfirst
      exact .inl (Option.some.inj hfirst)
    by_cases h7 : i = 7
    · subst h7
      rw [List.getElem?_eq_getElem hi] at hsecond
      exact .inl (Option.some.inj hsecond)
    have hmem : ((bytesOf value.toList)[i], i) ∈ (bytesOf value.toList).zipIdx := by
      rw [List.mem_zipIdx_iff_getElem?]
      exact List.getElem?_eq_getElem hi
    have := hall _ hmem
    simp only [h4, h7, not_false_eq_true, true_and, Bool.not_eq_false] at this
    exact .inr this
  have hchar : ∀ c ∈ value.toList, c.toNat < 128 ∧ Copied c := by
    intro c hc
    have hmem : ∀ b ∈ String.utf8EncodeChar c, b = 45 ∨ asciiDigit b = true := fun b hb =>
      hbyte b (List.mem_flatMap.mpr ⟨c, hc, hb⟩)
    have hsmall : ∀ b : UInt8, b = 45 ∨ asciiDigit b = true → 45 ≤ b.toNat ∧ b.toNat < 91 := by
      rintro b (rfl | hb)
      · decide
      · simp only [asciiDigit, Bool.and_eq_true, decide_eq_true_eq, UInt8.le_iff_toNat_le] at hb
        have h48 : (48 : UInt8).toNat = 48 := rfl
        have h57 : (57 : UInt8).toNat = 57 := rfl
        omega
    have hlow : c.toNat < 128 := by
      by_contra hhigh
      obtain ⟨b, hb⟩ := List.exists_mem_of_ne_nil _ (@String.utf8EncodeChar_ne_nil c)
      have h1 := utf8EncodeChar_high (Nat.le_of_not_lt hhigh) b hb
      have h2 := hsmall b (hmem b hb)
      omega
    have hb := hsmall _ (hmem (UInt8.ofNat c.toNat) (by rw [utf8EncodeChar_ascii hlow]; simp))
    rw [UInt8.toNat_ofNat', Nat.mod_eq_of_lt (by omega)] at hb
    exact ⟨hlow, copied_of_ascii hb.1 hb.2⟩
  have hcount : ∀ cs : List Char, (∀ c ∈ cs, c.toNat < 128 ∧ Copied c) →
      (bytesOf cs).length = cs.length := by
    intro cs
    induction cs with
    | nil => exact fun _ => rfl
    | cons c cs ih =>
      intro h
      obtain ⟨hc, hcs⟩ := List.forall_mem_cons.mp h
      rw [bytesOf_cons hc.1, List.length_cons, List.length_cons, ih hcs]
  have hten := hcount _ hchar
  obtain ⟨hverbatim, hsize⟩ := @verbatim_of_copied (value.toList.take 7) fun c hc =>
    (hchar c (List.mem_of_mem_take hc)).2
  refine ⟨hverbatim, ?_⟩
  rw [hsize, List.length_take]
  omega

theorem readRecord_text {width : Nat} {cols : Columns} {row : List String} {record : Key × Int}
    (h : readRecord width cols row = .ok record) : KeyText record.1 := by
  simp only [readRecord, bind_eq_ok, refuseIf_eq_ok, expect_eq_ok, pure_eq_ok, exists_const,
    Bool.or_eq_false_iff, bne_eq_false_iff_eq, Bool.not_eq_false', List.all_eq_true] at h
  obtain ⟨-, _, -, month, hmonth, _, -, _, -, code, -, ⟨hsize, hupper⟩, rfl⟩ := h
  obtain ⟨hverbatim, hseven⟩ := dateMonth_text hmonth
  refine ⟨hverbatim, hseven, fun c hc => ?_, hsize⟩
  have hc := hupper c hc
  simp only [Char.isUpper, decide_eq_true_eq, ge_iff_le, UInt32.le_iff_toNat_le] at hc
  have h65 : 'A'.val.toNat = 65 := rfl
  have h90 : 'Z'.val.toNat = 90 := rfl
  exact (copied_of_ascii (c := c) (by change 45 ≤ c.val.toNat; omega)
    (by change c.val.toNat < 91; omega)).1

theorem recordsOf_text (h : recordsOf bytes = .ok rs) : ∀ e ∈ rs, KeyText e.1 := by
  obtain ⟨header, records, names, cols, -, -, -, htells⟩ := recordsOf_eq_ok.mp h
  intro e he
  obtain ⟨row, -, hread⟩ := exists_mem_of_forall₂ htells e he
  exact readRecord_text hread

/-- The text of a total is copied, and as wide as its amount. -/
theorem formattedCents_text (hv : |v| < 2 ^ 127) (h : formattedCents v = .ok t) :
    Verbatim t ∧ t.utf8ByteSize = amountWidth v := by
  obtain rfl := Except.ok.inj ((formattedCents_eq hv).symm.trans h)
  have hne : digits 2 (v.natAbs % 100) ≠ [] :=
    List.ne_nil_of_length_eq_add_one (length_digits 2 _)
  have hcopied : ∀ c ∈ (if decide (v < 0) = true then ['-'] else []) ++
      Nat.toDigits 10 (v.natAbs / 100) ++ '.' :: digits 2 (v.natAbs % 100), Copied c := by
    intro c hc
    simp only [List.mem_append, List.mem_cons] at hc
    obtain (hc | hc) | rfl | hc := hc
    · split at hc
      · rw [List.mem_singleton] at hc
        subst hc
        exact copied_of_ascii (by decide) (by decide)
      · cases hc
    · exact copied_digit (isDigit_toDigits hc)
    · exact copied_of_ascii (by decide) (by decide)
    · exact copied_digit (isDigit_digits hc)
  obtain ⟨hverbatim, hsize⟩ := verbatim_of_copied hcopied
  rw [written, if_neg hne]
  refine ⟨hverbatim, ?_⟩
  rw [hsize, List.length_append, List.length_append, List.length_cons, length_digits, amountWidth,
    printed]
  by_cases hneg : v < 0 <;> simp [hneg]

/-! ## The size of a report -/

/-- The texts of a group are copied, and the total is as wide as the amount. -/
structure Group.Sized (g : Group) (v : Int) : Prop where
  key : KeyText (g.month, g.currency)
  total : Verbatim g.total
  totalSize : g.total.utf8ByteSize = amountWidth v

/-- A group's serialisation in either order of its fields. -/
def Group.sortedJson (g : Group) : Value :=
  .object [("currency", .string g.currency), ("invoice_count", .number g.invoiceCount),
    ("month", .string g.month), ("total", .string g.total)]

theorem sorted_group (g : Group) : sorted g.toJson = g.sortedJson := by
  simp [Group.toJson, sorted, sortedFields, Group.sortedJson]

theorem sortedItems_map {α : Type} {f : α → Value} {l : List α} :
    sortedItems (l.map f) = l.map fun a => sorted (f a) := by
  induction l with
  | nil => rfl
  | cons a l ih => rw [List.map_cons, sortedItems, ih, List.map_cons]

theorem sorted_report (r : Report) : sorted r.toJson =
    .object [("groups", .array (r.groups.map Group.sortedJson)),
      ("record_count", .number r.recordCount), ("report_type", .string r.reportType),
      ("schema_version", .number r.schemaVersion), ("source_sha256", .string r.sourceSha256)] := by
  have h : sortedItems (r.groups.map Group.toJson) = r.groups.map Group.sortedJson := by
    rw [sortedItems_map]
    exact List.map_congr_left fun g _ => sorted_group g
  simp [Report.toJson, sorted, sortedFields, h]

section

variable {μ : String → Nat} {q : Nat} (hμ : Weighs μ q)
include hμ

/-- **The line of a group**, with its comma. -/
theorem weight_group (h : g.Sized v) :
    μ (text g.toJson) + 1 = 51 + 14 * q + printed g.invoiceCount + amountWidth v ∧
      μ (text g.sortedJson) = μ (text g.toJson) := by
  have h1 : μ (quote "month") = _ := hμ.quoted (by decide)
  have h2 : μ (quote "currency") = _ := hμ.quoted (by decide)
  have h3 : μ (quote "invoice_count") = _ := hμ.quoted (by decide)
  have h4 : μ (quote "total") = _ := hμ.quoted (by decide)
  have s1 : "month".utf8ByteSize = 5 := rfl
  have s2 : "currency".utf8ByteSize = 8 := rfl
  have s3 : "invoice_count".utf8ByteSize = 13 := rfl
  have s4 : "total".utf8ByteSize = 5 := rfl
  have v1 : μ (text (.string g.month)) = _ := hμ.string h.key.month
  have v2 : μ (text (.string g.currency)) = _ := hμ.string h.key.currency
  have v3 := hμ.number g.invoiceCount
  have v4 := hμ.string h.total
  have k1 : g.month.utf8ByteSize = 7 := h.key.monthSize
  have k2 : g.currency.utf8ByteSize = 3 := h.key.currencySize
  have k4 := h.totalSize
  rw [Group.toJson, Group.sortedJson, hμ.object (List.cons_ne_nil _ _),
    hμ.object (List.cons_ne_nil _ _)]
  simp only [List.map_cons, List.map_nil, List.sum_cons, List.sum_nil, printed]
  omega

/-- **The size of a report**: a line for each group, whichever the order of the fields. -/
theorem weight_report (hversion : r.schemaVersion = 1)
    (htype : r.reportType = "invoice-summary-v1") (hsource : isHash r.sourceSha256 = true)
    (hne : r.groups ≠ []) (hsized : ∀ g ∈ r.groups, ∃ v, g.Sized v) :
    μ (text r.toJson) = 151 + 14 * q + printed r.recordCount +
        (r.groups.map fun g => μ (text g.toJson) + 1).sum ∧
      μ (text (sorted r.toJson)) = μ (text r.toJson) := by
  have h1 : μ (quote "schema_version") = _ := hμ.quoted (by decide)
  have h2 : μ (quote "report_type") = _ := hμ.quoted (by decide)
  have h3 : μ (quote "source_sha256") = _ := hμ.quoted (by decide)
  have h4 : μ (quote "record_count") = _ := hμ.quoted (by decide)
  have h5 : μ (quote "groups") = _ := hμ.quoted (by decide)
  have s1 : "schema_version".utf8ByteSize = 14 := rfl
  have s2 : "report_type".utf8ByteSize = 11 := rfl
  have s3 : "source_sha256".utf8ByteSize = 13 := rfl
  have s4 : "record_count".utf8ByteSize = 12 := rfl
  have s5 : "groups".utf8ByteSize = 6 := rfl
  have s6 : "invoice-summary-v1".utf8ByteSize = 18 := rfl
  obtain ⟨hverbatim, hlength⟩ := verbatim_hash hsource
  have v1 : μ (text (.number (1 : Nat))) = 1 := hμ.number 1
  have v2 : μ (text (.string "invoice-summary-v1")) = _ := hμ.string (by decide)
  have v3 := hμ.string hverbatim
  have v4 := hμ.number r.recordCount
  have hmap : ∀ {f : Group → Value}, r.groups.map f ≠ [] := fun h => hne (List.map_eq_nil_iff.mp h)
  have v5 := hμ.array (hmap (f := Group.toJson))
  have v6 := hμ.array (hmap (f := Group.sortedJson))
  have hsame : (r.groups.map Group.sortedJson).map (fun v => μ (text v) + 1) =
      (r.groups.map Group.toJson).map (fun v => μ (text v) + 1) := by
    rw [List.map_map, List.map_map]
    refine List.map_congr_left fun g hg => ?_
    obtain ⟨v, hv⟩ := hsized g hg
    rw [Function.comp_apply, Function.comp_apply, (weight_group hμ hv).2]
  have hlines : (r.groups.map Group.toJson).map (fun v => μ (text v) + 1) =
      r.groups.map fun g => μ (text g.toJson) + 1 := List.map_map
  rw [hsame] at v6
  rw [hlines] at v5 v6
  rw [sorted_report, Report.toJson, hμ.object (List.cons_ne_nil _ _),
    hμ.object (List.cons_ne_nil _ _)]
  simp only [List.map_cons, List.map_nil, List.sum_cons, List.sum_nil, printed, hversion, htype,
    h1, h2, h3, h4, h5, v1, v2, v3, v4, v5, v6, s1, s2, s3, s4, s5, s6, hlength]
  omega

end

/-! ## The report of an input -/

theorem recordsOf_ne_nil (h : recordsOf bytes = .ok rs) : rs ≠ [] := by
  obtain ⟨header, records, names, cols, hparse, -, -, htells⟩ := recordsOf_eq_ok.mp h
  have htwo := (parseCsv_eq_ok.mp hparse).1.records
  have hlength := htells.length_eq
  rintro rfl
  rw [List.length_cons] at htwo
  rw [List.length_nil] at hlength
  omega

theorem allRecords_forall {sources : Table Bytes} {P : Key × Int → Prop}
    (hP : ∀ bytes rs, recordsOf bytes = .ok rs → ∀ e ∈ rs, P e) (h : allRecords sources = .ok rs) :
    ∀ e ∈ rs, P e := by
  simp only [allRecords, bind_eq_ok, pure_eq_ok, mapM_eq_ok] at h
  obtain ⟨all, hall, rfl⟩ := h
  intro e he
  obtain ⟨own, hown, he⟩ := List.mem_flatten.mp he
  obtain ⟨source, -, hread⟩ := exists_mem_of_forall₂ hall own hown
  exact hP source.2 own hread e he

theorem allRecords_ne_nil {sources : Table Bytes} (hne : sources.toList ≠ [])
    (h : allRecords sources = .ok rs) : rs ≠ [] := by
  simp only [allRecords, bind_eq_ok, pure_eq_ok, mapM_eq_ok] at h
  obtain ⟨all, hall, rfl⟩ := h
  generalize sources.toList = list at hne hall
  cases hall with
  | nil => exact absurd rfl hne
  | cons hread _ =>
    intro hnil
    rw [List.flatten_cons, List.append_eq_nil_iff] at hnil
    exact recordsOf_ne_nil hread hnil.1

theorem inputRecords_batch {texts : Table String}
    (h : decodeAs Batch.ofJson bytes = some ⟨1, texts⟩) :
    inputRecords bytes .batch = allRecords (sourceBytes texts) := by
  rw [inputRecords, h]
  rfl

/-- The report `r` of the records `rs`. -/
structure Reported (sha256 : Bytes → Bytes) (bytes : Bytes) (rs : List (Key × Int)) (r : Report)
    (totals : Totals) : Prop where
  held : Held rs
  nonempty : rs ≠ []
  keyTexts : ∀ e ∈ rs, KeyText e.1
  tallies : Tallies totals rs
  groups : totals.toList.mapM group = .ok r.groups
  version : r.schemaVersion = 1
  type : r.reportType = "invoice-summary-v1"
  source : r.sourceSha256 = hex (sha256 bytes)
  records : r.recordCount = rs.length

/-- **What the worker reports.** -/
theorem report_eq_ok (h : profile.report sha256 bytes = .ok report) :
    ∃ rs r totals, inputRecords bytes profile = .ok rs ∧ Reported sha256 bytes rs r totals ∧
      report = toVec (match profile with | .single => r.toJson | .batch => sorted r.toJson) := by
  cases profile with
  | single =>
    have hread : ∃ out, reportBytes sha256 bytes = .ok out := ⟨report, h⟩
    obtain ⟨rs, hrs⟩ := reportBytes_iff.mp hread
    obtain ⟨totals, groups, ht, hgroups, hreport⟩ := @calculate_recordsOf sha256 bytes rs hrs
    have hbounded := recordsOf_bounded hrs
    have hheld : Held rs := ⟨hbounded.few.trans (by decide), hbounded.small⟩
    refine ⟨rs, ⟨1, "invoice-summary-v1", hex (sha256 bytes), rs.length, groups⟩, totals, hrs,
      ⟨hheld, recordsOf_ne_nil hrs, recordsOf_text hrs, ht, hgroups, rfl,
      rfl, rfl, rfl⟩, ?_⟩
    simp only [Profile.report, reportBytes, bind_eq_ok, pure_eq_ok, hreport] at h
    obtain ⟨r, hr, rfl⟩ := h
    cases hr
    rfl
  | batch =>
    obtain ⟨texts, hdecode, hbatch⟩ := batchReport_eq_ok h
    obtain ⟨-, -, -, -, hne, -⟩ := batchBytes_eq_ok hbatch
    have hinput := inputRecords_batch hdecode
    obtain ⟨rs, totals, groups, hrs, hheld, ht, hgroups, hreport⟩ | ⟨_, _, e, -, -, herr⟩ :=
      batchReport_cases sha256 hbatch
    · refine ⟨rs, ⟨1, "invoice-summary-v1", hex (sha256 bytes), rs.length, groups⟩, totals,
        hinput.trans hrs, ⟨hheld, allRecords_ne_nil hne hrs,
        allRecords_forall (fun _ _ => recordsOf_text) hrs, ht, hgroups, rfl, rfl, rfl, rfl⟩, ?_⟩
      exact Except.ok.inj (h.symm.trans hreport)
    · have h' : batchReport sha256 bytes = .ok report := h
      rw [herr] at h'
      cases h'

theorem Reported.total (h : Reported sha256 bytes rs r totals) (k : Key) :
    |Base.total rs k| < 2 ^ 127 := (h.held.total k).trans (by decide)

/-- Every group is the line of a key that occurs. -/
theorem Reported.lines (h : Reported sha256 bytes rs r totals) :
    List.Forall₂ (fun k g => g.Sized (Base.total rs k) ∧ g.invoiceCount = count rs k)
      totals.keys r.groups := by
  have hforall := mapM_eq_ok.mp h.groups
  rw [h.tallies.toList_eq, List.forall₂_map_left_iff] at hforall
  have hkeys : ∀ k ∈ totals.keys, KeyText k := by
    intro k hk
    obtain ⟨e, he, rfl⟩ := List.mem_map.mp (h.tallies.mem_keys.mp hk)
    exact h.keyTexts e he
  generalize totals.keys = keys at hforall hkeys
  generalize r.groups = groups at hforall
  induction hforall with
  | nil => exact .nil
  | cons hg _ ih =>
    obtain ⟨hk, hkeys⟩ := List.forall_mem_cons.mp hkeys
    refine .cons ?_ (ih hkeys)
    simp only [group, bind_eq_ok, pure_eq_ok] at hg
    obtain ⟨t, ht, rfl⟩ := hg
    obtain ⟨hverbatim, hsize⟩ := formattedCents_text (h.total _) ht
    exact ⟨⟨hk, hverbatim, hsize⟩, rfl⟩

/-- **The size of what the worker reports.** -/
theorem Reported.weight (h : Reported sha256 bytes rs r totals)
    (hsha : ∀ bytes, (sha256 bytes).length = 32) {μ : String → Nat} {q : Nat} (hμ : Weighs μ q) :
    μ (text r.toJson) = 151 + 14 * q + printed rs.length + (((rs.map Prod.fst).dedup).map fun k =>
        51 + 14 * q + printed (count rs k) + amountWidth (Base.total rs k)).sum ∧
      μ (text (sorted r.toJson)) = μ (text r.toJson) := by
  have hlines := h.lines
  have hsized : ∀ g ∈ r.groups, ∃ v, g.Sized v := fun g hg => by
    obtain ⟨k, -, hk, -⟩ := exists_mem_of_forall₂ hlines g hg
    exact ⟨_, hk⟩
  have hne : r.groups ≠ [] := by
    intro hnil
    rw [hnil] at hlines
    obtain ⟨e, he⟩ := List.exists_mem_of_ne_nil rs h.nonempty
    have hk := h.tallies.mem_keys.mpr (List.mem_map_of_mem (f := Prod.fst) he)
    rw [List.forall₂_nil_right_iff.mp hlines] at hk
    cases hk
  have hsource : isHash r.sourceSha256 = true := h.source ▸ isHash_hex (hsha bytes)
  obtain ⟨hsize, hsame⟩ := weight_report hμ h.version h.type hsource hne hsized
  have hsum : (r.groups.map fun g => μ (text g.toJson) + 1) = totals.keys.map fun k =>
      51 + 14 * q + printed (count rs k) + amountWidth (Base.total rs k) :=
    map_eq_of_forall₂ (fun k g hg => by rw [(weight_group hμ hg.1).1, hg.2]) hlines
  rw [hsum, (h.tallies.keys_perm.map _).sum_eq, h.records] at hsize
  exact ⟨hsize, hsame⟩

end

end LumaOS.Calculation
