import LumaOS.Calculation.Totals
import LumaOS.Json.Decode

/-!
# Totals of a batch

`report_bytes` of `calculation.rs`, and `batch_bytes` and `batch_report` of `workflow_resource.rs`.
A batch names its sources; its report is built from the reports of the sources, whose decimal totals
are read back and added up by month and currency.

* `parseTotal_formatted`: the batch reads every total that a source's report prints.
* `addGroups_eq`: the groups of one source are absorbed key by key.
* `addSources_eq`: the loop over the sources tallies the records of all of them.
* `batch_totals_exact`: a batch reports the totals of all its records, however they are distributed.

The texts of `serde_json`'s own errors are not those of the library.
-/

namespace LumaOS.Calculation

open LumaOS.Base LumaOS.Text LumaOS.Json Std

/-! ## The report of one source -/

def Group.toJson (g : Group) : Value :=
  .object [("month", .string g.month), ("currency", .string g.currency),
    ("invoice_count", .number g.invoiceCount), ("total", .string g.total)]

def Report.toJson (r : Report) : Value :=
  .object [("schema_version", .number r.schemaVersion), ("report_type", .string r.reportType),
    ("source_sha256", .string r.sourceSha256), ("record_count", .number r.recordCount),
    ("groups", .array (r.groups.map Group.toJson))]

def reportBytes (sha256 : Bytes → Bytes) (bytes : Bytes) : Result Bytes := do
  let report ← calculate sha256 bytes
  pure (toVec report.toJson)

/-! ## The batch -/

def maxSource : Nat := 1024 * 1024

structure Batch where
  schemaVersion : UInt32
  sources : Table String

def Batch.toJson (b : Batch) : Value :=
  .object [("schema_version", u32Json b.schemaVersion),
    ("sources", .object (b.sources.toList.map fun e => (e.1, .string e.2)))]

def Batch.ofJson (v : Value) : Option Batch := do
  let schemaVersion ← (v.get "schema_version").asU32
  let sources ← (v.get "sources").asTable Value.asStr
  pure ⟨schemaVersion, sources⟩

/-- `serde_json::to_vec(&batch)`. -/
def Batch.bytes (b : Batch) : Bytes := toVec b.toJson

/-- A byte of a dependency's name. -/
def nameChar (c : Char) : Bool := c.isAlphanum || c == '-' || c == '_' || c == '.'

/-- One turn of the loop of `batch_bytes`. -/
def addText (texts : Table String) (source : String × Bytes) : Result (Table String) := do
  refuseIf (source.1.isEmpty || source.1.utf8ByteSize > 64 || !source.1.toList.all nameChar ||
    source.2.isEmpty || source.2.length > maxSource)
    "invalid calculation dependency identity or size"
  let text ← okOr (utf8Text source.2) "invalid utf-8 sequence"
  pure (texts.insert source.1 text)

def batchBytes (sources : Table Bytes) : Result Bytes := do
  refuseIf (sources.isEmpty || sources.size > 16)
    "calculation needs one to sixteen exact text dependencies"
  let texts ← sources.toList.foldlM addText ∅
  let encoded := (Batch.mk 1 texts).bytes
  refuseIf (encoded.length > maxSource)
    "combined calculation dependencies exceed fixed worker input bound"
  pure encoded

/-- A `u32` field. -/
def asCount (v : Value) : Option Nat := v.asU32.map UInt32.toNat

/-- The `Group` of `batch_report`. -/
def Group.ofJson (v : Value) : Option Group := do
  let month ← (v.get "month").asStr
  let currency ← (v.get "currency").asStr
  let invoiceCount ← asCount (v.get "invoice_count")
  let total ← (v.get "total").asStr
  pure ⟨month, currency, invoiceCount, total⟩

/-- The `Report` of `batch_report`. -/
def Report.ofJson (v : Value) : Option Report := do
  let schemaVersion ← asCount (v.get "schema_version")
  let reportType ← (v.get "report_type").asStr
  let sourceSha256 ← (v.get "source_sha256").asStr
  let recordCount ← asCount (v.get "record_count")
  let groups ← (v.get "groups").asItems Group.ofJson
  pure ⟨schemaVersion, reportType, sourceSha256, recordCount, groups⟩

/-- What `serde_json` says of a document that it cannot read. -/
def unreadable : String := "invalid document"

def batchOverflow : String := "batch total overflow"

/-- A `u32`. -/
def u32 (n : Nat) : Option Nat := if n < 2 ^ 32 then some n else none

/-- The amount of a printed total, in hundredths. -/
def parseTotal (total : String) : Result Int := do
  let (negative, unsigned) := match stripPrefix "-" total with
    | some value => (true, value)
    | none => (false, total)
  let (whole, cents) ← okOr (splitOnce '.' unsigned) "calculation total is not an exact decimal"
  refuseIf (whole.isEmpty || cents.utf8ByteSize != 2 ||
    !(whole.toList ++ cents.toList).all Char.isDigit) "calculation total encoding differs"
  let integer ← okOr (parseI128 whole) invalidDigit
  let amount ← okOr ((i128 (integer * 100)).bind fun value =>
    (parseI128 cents).bind fun c => i128 (value + c)) batchOverflow
  if negative then okOr (i128 (-amount)) batchOverflow else pure amount

/-- One turn of the loop over the groups of a source. -/
def addGroup (totals : Totals) (group : Group) : Result Totals := do
  let amount ← parseTotal group.total
  let entry := (totals[(group.month, group.currency)]?).getD (0, 0)
  let invoices ← okOr (u32 (entry.1 + group.invoiceCount)) "batch group count overflow"
  let sum ← okOr (i128 (entry.2 + amount)) batchOverflow
  pure (totals.insert (group.month, group.currency) (invoices, sum))

/-- One turn of the loop over the sources. -/
def addSource (sha256 : Bytes → Bytes) (state : Nat × Totals) (source : String) :
    Result (Nat × Totals) := do
  let bytes := bytesOf source.toList
  let encoded ← reportBytes sha256 bytes
  let report ← okOr (decodeAs Report.ofJson encoded) unreadable
  refuseIf (report.schemaVersion != 1 || report.reportType != "invoice-summary-v1" ||
    report.sourceSha256 != hex (sha256 bytes)) "calculation dependency provenance differs"
  let records ← okOr (u32 (state.1 + report.recordCount)) "batch record count overflow"
  let totals ← report.groups.foldlM addGroup state.2
  pure (records, totals)

/-- A group of the batch. -/
def batchGroup (entry : Key × (Nat × Int)) : Result Group := do
  let absolute ← okOr (i128 |entry.2.2|) batchOverflow
  let sign := if entry.2.2 < 0 then ['-'] else []
  pure ⟨entry.1.1, entry.1.2, entry.2.1,
    String.ofList (sign ++ Nat.toDigits 10 (absolute / 100).toNat ++
      '.' :: padded 2 (absolute % 100).toNat)⟩

/-- The report of a batch is a `serde_json::Value`, so its keys are sorted. -/
def batchReport (sha256 : Bytes → Bytes) (bytes : Bytes) : Result Bytes := do
  let batch ← okOr (decodeAs Batch.ofJson bytes) unreadable
  refuseIf (batch.schemaVersion != 1 || batch.bytes != bytes)
    "calculation batch is not canonical"
  let encoded ← batchBytes (batch.sources.map fun _ text => bytesOf text.toList)
  refuseIf (encoded != bytes) "calculation batch bounds differ"
  let (records, totals) ← batch.sources.values.foldlM (addSource sha256) (0, ∅)
  let groups ← totals.toList.mapM batchGroup
  pure (toVec (sorted (Report.mk 1 "invoice-summary-v1" (hex (sha256 bytes)) records groups).toJson))

/-! ## Records -/

/-- **The records of a source**, as `calculate` reads them. -/
def recordsOf (bytes : Bytes) : Result (List (Key × Int)) := do
  let rows ← parseCsv bytes
  let header ← expect rows.head? outOfBounds
  let _ ← header.foldlM checkName ∅
  let columns ← columns header
  (rows.drop 1).mapM (readRecord header.length columns)

/-- The records of all sources. -/
def allRecords (sources : Table Bytes) : Result (List (Key × Int)) := do
  let all ← sources.toList.mapM fun e => recordsOf e.2
  pure all.flatten

section

variable {sha256 : Bytes → Bytes} {bytes encoded : Bytes} {sources : Table Bytes}
  {texts : Table String} {totals : Totals} {past rs : List (Key × Int)} {v : Int} {text : String}
  {g : Group} {r : Report}

theorem recordsOf_eq_ok : recordsOf bytes = .ok rs ↔ ∃ header records names cols,
    parseCsv bytes = .ok (header :: records) ∧ header.foldlM checkName ∅ = .ok names ∧
      columns header = .ok cols ∧ Says header.length cols records rs := by
  simp only [recordsOf, bind_eq_ok, expect_eq_ok, mapM_eq_ok]
  constructor
  · rintro ⟨rows, hparse, header, hhead, names, hnames, cols, hcols, htells⟩
    cases rows with
    | nil => cases hhead
    | cons row rows =>
      cases hhead
      exact ⟨header, rows, names, cols, hparse, hnames, hcols, htells⟩
  · rintro ⟨header, records, names, cols, hparse, hnames, hcols, htells⟩
    exact ⟨_, hparse, header, rfl, names, hnames, cols, hcols, htells⟩

theorem recordsOf_bounded (h : recordsOf bytes = .ok rs) : Bounded rs := by
  obtain ⟨header, records, names, cols, hparse, -, -, htells⟩ := recordsOf_eq_ok.mp h
  exact htells.bounded hparse

/-- **The report of a source tallies its records.** -/
theorem calculate_recordsOf (h : recordsOf bytes = .ok rs) :
    ∃ (totals : Totals) (groups : List Group), Tallies totals rs ∧
      totals.toList.mapM group = .ok groups ∧
      calculate sha256 bytes =
        .ok ⟨1, "invoice-summary-v1", hex (sha256 bytes), rs.length, groups⟩ := by
  obtain ⟨header, records, names, cols, hparse, hnames, hcols, htells⟩ := recordsOf_eq_ok.mp h
  obtain ⟨totals, groups, ht, hgroups, hreport⟩ := calculate_says sha256 hparse hnames hcols htells
  refine ⟨totals, groups, ht, hgroups, ?_⟩
  rw [hreport, htells.length_eq]

/-- A source is accepted where its records are read. -/
theorem recordsOf_of_calculate (h : calculate sha256 bytes = .ok r) :
    ∃ rs, recordsOf bytes = .ok rs := by
  obtain ⟨header, records, names, cols, rs, hparse, hnames, hcols, htells⟩ := calculate_eq_ok h
  exact ⟨rs, recordsOf_eq_ok.mpr ⟨header, records, names, cols, hparse, hnames, hcols, htells⟩⟩

theorem reportBytes_iff : (∃ out, reportBytes sha256 bytes = .ok out) ↔
    ∃ rs, recordsOf bytes = .ok rs := by
  simp only [reportBytes, bind_eq_ok, pure_eq_ok]
  constructor
  · rintro ⟨out, r, hr, -⟩
    exact recordsOf_of_calculate hr
  · rintro ⟨rs, hrs⟩
    obtain ⟨_, _, _, _, hr⟩ := @calculate_recordsOf sha256 bytes rs hrs
    exact ⟨_, _, hr, rfl⟩

/-! ## Reading a report back -/

theorem asCount_number {n : Nat} (h : n < 2 ^ 32) : asCount (.number (n : Int)) = some n := by
  have hread := asU32_u32Json (UInt32.ofNat n)
  rw [u32Json, UInt32.toNat_ofNat_of_lt' h] at hread
  rw [asCount, hread, Option.map_some, UInt32.toNat_ofNat_of_lt' h]

theorem Group.ofJson_toJson (h : g.invoiceCount < 2 ^ 32) : Group.ofJson g.toJson = some g := by
  have hcount : asCount (g.toJson.get "invoice_count") = some g.invoiceCount := asCount_number h
  simp only [Group.ofJson, hcount]
  rfl

theorem Group.depth_toJson (g : Group) : depth g.toJson ≤ 1 := Nat.le_refl 1

theorem Report.depth_toJson (r : Report) : depth r.toJson ≤ 3 := by
  have := depths_map Group.depth_toJson r.groups
  simp only [Report.toJson, depth, fieldDepths]
  omega

theorem Report.ofJson_toJson (hversion : r.schemaVersion < 2 ^ 32)
    (hrecords : r.recordCount < 2 ^ 32) (hgroups : ∀ g ∈ r.groups, g.invoiceCount < 2 ^ 32) :
    Report.ofJson r.toJson = some r := by
  have h1 : asCount (r.toJson.get "schema_version") = some r.schemaVersion :=
    asCount_number hversion
  have h2 : asCount (r.toJson.get "record_count") = some r.recordCount := asCount_number hrecords
  have h3 : (r.toJson.get "groups").asItems Group.ofJson = some r.groups :=
    asItems_map fun g hg => Group.ofJson_toJson (hgroups g hg)
  simp only [Report.ofJson, h1, h2, h3]
  rfl

/-- **The batch reads a source's report back.** -/
theorem decodeAs_report (hversion : r.schemaVersion < 2 ^ 32) (hrecords : r.recordCount < 2 ^ 32)
    (hgroups : ∀ g ∈ r.groups, g.invoiceCount < 2 ^ 32) :
    decodeAs Report.ofJson (toVec r.toJson) = some r := by
  rw [decodeAs_toVec (r.depth_toJson.trans (by decide))]
  exact Report.ofJson_toJson hversion hrecords hgroups

theorem u32_eq {n : Nat} (h : n < 2 ^ 32) : u32 n = some n := if_pos h

/-- **The batch reads every total that is printed.** -/
theorem parseTotal_formatted (h : |v| < 2 ^ 126) (htext : formattedCents v = .ok text) :
    parseTotal text = .ok v := by
  obtain rfl := Except.ok.inj ((formattedCents_eq (h.trans (by decide))).symm.trans htext)
  generalize hneg : decide (v < 0) = negative
  have hv := abs_lt.mp h
  have hwhole : ∀ c ∈ Nat.toDigits 10 (v.natAbs / 100), c.isDigit = true :=
    fun c hc => isDigit_toDigits hc
  have hcents : ∀ c ∈ digits 2 (v.natAbs % 100), c.isDigit = true := fun c hc => isDigit_digits hc
  have hne : digits 2 (v.natAbs % 100) ≠ [] :=
    List.ne_nil_of_length_eq_add_one (length_digits 2 _)
  have hsign : (match stripPrefix "-" (written negative (Nat.toDigits 10 (v.natAbs / 100))
      (digits 2 (v.natAbs % 100))) with
      | some value => (true, value)
      | none => (false, written negative (Nat.toDigits 10 (v.natAbs / 100))
          (digits 2 (v.natAbs % 100)))) =
      (negative, written false (Nat.toDigits 10 (v.natAbs / 100)) (digits 2 (v.natAbs % 100))) := by
    cases negative with
    | true => rw [stripPrefix_written]
    | false => rw [stripPrefix_digits Nat.toDigits_ne_nil hwhole]
  have hdigits : ofDigits (Nat.toDigits 10 (v.natAbs / 100)) = v.natAbs / 100 :=
    Nat.ofDigitChars_ten_toDigits
  have hinteger : parseI128 (String.ofList (Nat.toDigits 10 (v.natAbs / 100))) =
      some ((v.natAbs / 100 : Nat) : Int) := by
    rw [parseI128_ofDigits Nat.toDigits_ne_nil hwhole (by rw [hdigits]; omega), hdigits]
  have hlt : v.natAbs % 100 < 10 ^ 2 := Nat.mod_lt _ (by decide)
  have hplaces : parseI128 (String.ofList (digits 2 (v.natAbs % 100))) =
      some ((v.natAbs % 100 : Nat) : Int) := by
    rw [parseI128_digits hne hcents (by rw [length_digits]; decide), ofDigits_digits hlt]
  have hguard : ((String.ofList (Nat.toDigits 10 (v.natAbs / 100))).isEmpty ||
      (String.ofList (digits 2 (v.natAbs % 100))).utf8ByteSize != 2 ||
      !((String.ofList (Nat.toDigits 10 (v.natAbs / 100))).toList ++
        (String.ofList (digits 2 (v.natAbs % 100))).toList).all Char.isDigit) = false := by
    have hempty : (String.ofList (Nat.toDigits 10 (v.natAbs / 100))).isEmpty = false := by
      rw [String.isEmpty_eq_false_iff, ne_eq, String.ofList_eq_empty_iff]
      exact Nat.toDigits_ne_nil
    have hall : (Nat.toDigits 10 (v.natAbs / 100) ++ digits 2 (v.natAbs % 100)).all
        Char.isDigit = true := by
      rw [List.all_append, List.all_eq_true.mpr hwhole, List.all_eq_true.mpr hcents]
      rfl
    rw [hempty, utf8ByteSize_digits hcents, length_digits, String.toList_ofList,
      String.toList_ofList, hall]
    rfl
  have hfirst : i128 (((v.natAbs / 100 : Nat) : Int) * 100) =
      some (((v.natAbs / 100 : Nat) : Int) * 100) :=
    i128_eq_some (abs_lt.mpr (by omega))
  have hsum : ((v.natAbs / 100 : Nat) : Int) * 100 + ((v.natAbs % 100 : Nat) : Int) = v.natAbs := by
    omega
  have habs : i128 (v.natAbs : Int) = some (v.natAbs : Int) :=
    i128_eq_some (abs_lt.mpr (by omega))
  simp only [parseTotal, hsign, splitOnce_written hwhole, if_neg hne, bind_eq_ok, okOr_eq_ok,
    refuseIf_eq_ok]
  refine ⟨_, rfl, (), hguard, _, hinteger, v.natAbs, ?_, ?_⟩
  · rw [hfirst, Option.bind_some, hplaces, Option.bind_some, hsum, habs]
  · cases negative with
    | true =>
      have : v < 0 := of_decide_eq_true hneg
      rw [if_pos rfl, okOr_eq_ok, i128_eq_some (abs_lt.mpr (by omega))]
      exact congrArg some (by omega)
    | false =>
      have : ¬ v < 0 := of_decide_eq_false hneg
      rw [if_neg Bool.false_ne_true, pure_eq_ok]
      omega

/-! ## One source more -/

/-- The records of all sources are few and their amounts small. -/
structure Held (l : List (Key × Int)) : Prop where
  few : l.length ≤ 160000
  small : ∀ e ∈ l, |e.2| < 10 ^ 14

theorem Held.total (h : Held past) (k : Key) : |Base.total past k| < 2 ^ 120 := by
  have hle := @total_le _ _ past k (10 ^ 14) fun e he => by
    have := h.small e he
    push_cast
    omega
  have hfew := h.few
  push_cast at hle
  omega

theorem Held.count (h : Held past) (k : Key) : Base.count past k < 2 ^ 32 := by
  have hle := @count_le_length _ _ past k
  have hfew := h.few
  omega

theorem Held.right (h : Held (past ++ rs)) : Held rs :=
  ⟨by have := h.few; rw [List.length_append] at this; omega,
    fun e he => h.small e (List.mem_append_right past he)⟩

/-- The entry of a group can take it in. -/
structure Room (totals : Totals) (e : Key × (Nat × Int)) : Prop where
  invoices : ((totals[e.1]?).getD (0, 0)).1 + e.2.1 < 2 ^ 32
  amount : |e.2.2| < 2 ^ 120
  sum : |((totals[e.1]?).getD (0, 0)).2 + e.2.2| < 2 ^ 120

theorem addGroup_eq {e : Key × (Nat × Int)} (h : Room totals e) (hg : group e = .ok g) :
    addGroup totals g = .ok (absorb totals e) := by
  simp only [group, bind_eq_ok, pure_eq_ok] at hg
  obtain ⟨text, htext, rfl⟩ := hg
  have hamount := parseTotal_formatted (h.amount.trans (by decide)) htext
  have hsum := i128_eq_some (h.sum.trans (by decide))
  have hinvoices := u32_eq h.invoices
  simp only [addGroup, hamount, hinvoices, bind_eq_ok, okOr_eq_ok, pure_eq_ok]
  exact ⟨_, rfl, _, rfl, _, hsum, rfl⟩

/-- **The groups of a source are absorbed key by key.** -/
theorem addGroups_eq {es : List (Key × (Nat × Int))} {gs : List Group}
    (hgs : List.Forall₂ (fun e g => group e = .ok g) es gs) :
    ∀ {totals : Totals}, (es.map Prod.fst).Nodup → (∀ e ∈ es, Room totals e) →
      gs.foldlM addGroup totals = .ok (es.foldl absorb totals) := by
  induction hgs with
  | nil => exact fun _ _ => rfl
  | @cons e g es gs hg _ ih =>
    intro totals hnodup hroom
    rw [List.map_cons, List.nodup_cons] at hnodup
    rw [List.foldlM_cons, addGroup_eq (hroom e List.mem_cons_self) hg]
    refine ih hnodup.2 fun f hf => ?_
    have hne : e.1 ≠ f.1 := fun heq => hnodup.1 (heq ▸ List.mem_map_of_mem hf)
    have hold := hroom f (List.mem_cons_of_mem e hf)
    constructor
    · rw [get_absorb, if_neg hne]
      exact hold.invoices
    · exact hold.amount
    · rw [get_absorb, if_neg hne]
      exact hold.sum

/-- **A source whose records are read is taken in.** -/
theorem addSource_eq {source : String} (hrs : recordsOf (bytesOf source.toList) = .ok rs)
    (ht : Tallies totals past) (h : Held (past ++ rs)) :
    ∃ t, addSource sha256 (past.length, totals) source = .ok ((past ++ rs).length, t) ∧
      Tallies t (past ++ rs) := by
  obtain ⟨own, groups, hown, hgroups, hreport⟩ :=
    @calculate_recordsOf sha256 (bytesOf source.toList) rs hrs
  have hforall := mapM_eq_ok.mp hgroups
  have hkeys : (own.toList.map Prod.fst).Nodup := by
    rw [ExtTreeMap.map_fst_toList_eq_keys]
    exact nodup_keys
  have hinvoices : ∀ g ∈ groups, g.invoiceCount < 2 ^ 32 := by
    intro g hg
    obtain ⟨entry, he, hg⟩ := exists_of_mem_mapM hgroups hg
    simp only [group, bind_eq_ok, pure_eq_ok] at hg
    obtain ⟨text, -, rfl⟩ := hg
    rw [(hown.entry.mp he).2]
    exact h.right.count entry.1
  have hroom : ∀ e ∈ own.toList, Room totals e := by
    intro e he
    obtain ⟨-, hv⟩ := hown.entry.mp he
    have hcount := h.count e.1
    have htotal := h.total e.1
    rw [count_concat] at hcount
    rw [total_concat] at htotal
    constructor
    · rw [ht.getD, hv]
      exact hcount
    · rw [hv]
      exact h.right.total e.1
    · rw [ht.getD, hv]
      exact htotal
  have hlength := h.few
  rw [List.length_append] at hlength
  have hdecode := @decodeAs_report ⟨1, "invoice-summary-v1",
    hex (sha256 (bytesOf source.toList)), rs.length, groups⟩
    (show 1 < 2 ^ 32 by decide) (show rs.length < 2 ^ 32 by omega) hinvoices
  have hcount : u32 (past.length + rs.length) = some (past.length + rs.length) :=
    u32_eq (by omega)
  refine ⟨own.toList.foldl absorb totals, ?_, ht.absorb hown⟩
  simp only [addSource, reportBytes, hreport, bind_eq_ok, pure_eq_ok, okOr_eq_ok, refuseIf_eq_ok]
  refine ⟨_, ⟨_, rfl, rfl⟩, _, hdecode, (), ?_, _, hcount, _, addGroups_eq hforall hkeys hroom, ?_⟩
  · simp
  · rw [List.length_append]

/-- What the sources say. -/
abbrev Sources : List String → List (List (Key × Int)) → Prop :=
  List.Forall₂ fun source rs => recordsOf (bytesOf source.toList) = .ok rs

/-- **The loop over the sources tallies the records of all of them**, and fails only where the
calculation of one fails. -/
theorem addSources_eq : ∀ {list : List String} {past : List (Key × Int)} {totals : Totals},
    Tallies totals past → (∀ e ∈ past, |e.2| < 10 ^ 14) →
    past.length + 10000 * list.length ≤ 160000 →
    (∃ all t, Sources list all ∧ Tallies t (past ++ all.flatten) ∧ Held (past ++ all.flatten) ∧
      list.foldlM (addSource sha256) (past.length, totals) =
        .ok ((past ++ all.flatten).length, t)) ∨
    ∃ source ∈ list, ∃ e, calculate sha256 (bytesOf source.toList) = .error e ∧
      list.foldlM (addSource sha256) (past.length, totals) = .error e
  | [], past, totals, ht, hpast, hfew => by
    refine .inl ⟨[], totals, .nil, ?_, ?_, ?_⟩ <;> rw [List.flatten_nil, List.append_nil]
    · exact ht
    · exact ⟨by omega, hpast⟩
    · rfl
  | source :: list, past, totals, ht, hpast, hfew => by
    rw [List.foldlM_cons]
    cases hreport : calculate sha256 (bytesOf source.toList) with
    | error e =>
      refine .inr ⟨source, List.mem_cons_self, e, hreport, ?_⟩
      rw [addSource, reportBytes, hreport]
      rfl
    | ok r =>
      obtain ⟨rs, hrs⟩ := recordsOf_of_calculate hreport
      have hbounded := recordsOf_bounded hrs
      have hten := hbounded.few
      rw [List.length_cons] at hfew
      have hsmall : ∀ e ∈ past ++ rs, |e.2| < 10 ^ 14 := by
        intro e he
        rcases List.mem_append.mp he with he | he
        · exact hpast e he
        · exact hbounded.small e he
      have hlength : (past ++ rs).length = past.length + rs.length := List.length_append
      obtain ⟨t, hadd, ht'⟩ := addSource_eq hrs ht ⟨by omega, hsmall⟩
      rw [hadd]
      obtain ⟨all, t', hall, htallies, hheld, hloop⟩ | ⟨s, hs, e, herr, hloop⟩ :=
        @addSources_eq list _ t ht' hsmall (by omega)
      · refine .inl ⟨rs :: all, t', .cons hrs hall, ?_, ?_, ?_⟩ <;>
          rw [List.flatten_cons, ← List.append_assoc]
        · exact htallies
        · exact hheld
        · exact hloop
      · exact .inr ⟨s, List.mem_cons_of_mem source hs, e, herr, hloop⟩

theorem batchGroup_eq {e : Key × (Nat × Int)} (h : |e.2.2| < 2 ^ 127) :
    batchGroup e = group e := by
  have habs : i128 |e.2.2| = some |e.2.2| := i128_eq_some (by rwa [abs_abs])
  rw [batchGroup, group, formattedCents, habs]
  rfl

theorem batchGroups_eq : ∀ {es : List (Key × (Nat × Int))}, (∀ e ∈ es, |e.2.2| < 2 ^ 127) →
    es.mapM batchGroup = es.mapM group
  | [], _ => rfl
  | e :: es, h => by
    obtain ⟨he, hes⟩ := List.forall_mem_cons.mp h
    rw [List.mapM_cons, List.mapM_cons, batchGroup_eq he, batchGroups_eq hes]

/-! ## The batch -/

theorem Batch.ofJson_toJson (b : Batch) : Batch.ofJson b.toJson = some b := by
  have hsources : (b.toJson.get "sources").asTable Value.asStr = some b.sources :=
    asTable_toList fun _ s _ => asStr_string s
  have hversion : (b.toJson.get "schema_version").asU32 = some b.schemaVersion :=
    asU32_u32Json b.schemaVersion
  simp only [Batch.ofJson, hversion, hsources]
  rfl

theorem Batch.depth_toJson (b : Batch) : depth b.toJson ≤ 2 := by
  have hstring : ∀ s, depth (.string s) ≤ 0 := fun _ => Nat.le_refl 0
  have := fieldDepths_map hstring b.sources.toList
  have hversion : depth (u32Json b.schemaVersion) = 0 := rfl
  simp only [Batch.toJson, depth, fieldDepths, hversion]
  omega

theorem decodeAs_batch (b : Batch) : decodeAs Batch.ofJson b.bytes = some b := by
  rw [Batch.bytes, decodeAs_toVec (b.depth_toJson.trans (by decide)), Batch.ofJson_toJson]

/-- The sources of a batch as they were read. -/
def sourceBytes (texts : Table String) : Table Bytes :=
  texts.map fun _ text => bytesOf text.toList

/-- **What `batch_bytes` accepts and writes.** -/
theorem batchBytes_eq_ok (h : batchBytes sources = .ok encoded) :
    ∃ texts, sources = sourceBytes texts ∧ encoded = (Batch.mk 1 texts).bytes ∧
      encoded.length ≤ maxSource ∧ sources.toList ≠ [] ∧ sources.size ≤ 16 := by
  simp only [batchBytes, bind_eq_ok, refuseIf_eq_ok, pure_eq_ok, exists_const,
    Bool.or_eq_false_iff, decide_eq_false_iff_not, Nat.not_lt, gt_iff_lt] at h
  obtain ⟨⟨hempty, hsize⟩, texts, hloop, hshort, rfl⟩ := h
  have hstep : ∀ (t : Table String) (e : String × Bytes) t', addText t e = .ok t' →
      (∃ text, e.2 = bytesOf text.toList ∧ t'[e.1]? = some text) ∧
        ∀ k, k ≠ e.1 → t'[k]? = t[k]? := by
    intro t e t' hadd
    simp only [addText, bind_eq_ok, refuseIf_eq_ok, okOr_eq_ok, pure_eq_ok, exists_const] at hadd
    obtain ⟨-, text, htext, rfl⟩ := hadd
    exact ⟨⟨text, utf8Text_eq_some.mp htext, Table.get_insert_self⟩,
      fun k hk => Table.get_insert_ne (Ne.symm hk)⟩
  have hentries := @Table.foldlM_entries _ _ addText
    (fun _ e r => ∃ text, e.2 = bytesOf text.toList ∧ r = some text) hstep sources ∅ texts hloop
  have hne : sources.toList ≠ [] := fun hnil => by
    have hlength := congrArg List.length hnil
    rw [ExtTreeMap.length_toList, List.length_nil] at hlength
    rw [ExtTreeMap.isEmpty_eq_size_beq_zero, hlength] at hempty
    cases hempty
  refine ⟨texts, ExtTreeMap.ext_getElem? fun k => ?_, rfl, hshort, hne, hsize⟩
  rw [sourceBytes, Table.get_map]
  obtain ⟨hnone, hsame⟩ | ⟨source, hsource, text, htext, hread⟩ := hentries k
  · rw [hnone, hsame, ExtTreeMap.getElem?_empty]
    rfl
  · rw [hsource, hread, Option.map_some, ← htext]

theorem toList_sourceBytes :
    (sourceBytes texts).toList = texts.toList.map fun e => (e.1, bytesOf e.2.toList) :=
  ExtTreeMap.toList_map

/-- A dependency that a batch can name. -/
structure Nameable (id text : String) : Prop where
  id : (id.isEmpty || id.utf8ByteSize > 64 || !id.toList.all nameChar) = false
  nonempty : bytesOf text.toList ≠ []
  short : (bytesOf text.toList).length ≤ maxSource

/-- **Every batch within the bounds is written.** -/
theorem batchBytes_complete (hne : texts.isEmpty = false) (hsize : texts.size ≤ 16)
    (hall : ∀ e ∈ texts.toList, Nameable e.1 e.2)
    (hshort : (Batch.mk 1 texts).bytes.length ≤ maxSource) :
    batchBytes (sourceBytes texts) = .ok (Batch.mk 1 texts).bytes := by
  have hloop : ∀ (es : List (String × String)) (t : Table String), (∀ e ∈ es, Nameable e.1 e.2) →
      (es.map fun e => (e.1, bytesOf e.2.toList)).foldlM addText t =
        .ok (es.foldl (fun t e => t.insert e.1 e.2) t) := by
    intro es
    induction es with
    | nil => exact fun _ _ => rfl
    | cons e es ih =>
      intro t h
      obtain ⟨he, hes⟩ := List.forall_mem_cons.mp h
      have hadd : addText t (e.1, bytesOf e.2.toList) = .ok (t.insert e.1 e.2) := by
        have hguard : (e.1.isEmpty || e.1.utf8ByteSize > 64 || !e.1.toList.all nameChar ||
            (bytesOf e.2.toList).isEmpty || (bytesOf e.2.toList).length > maxSource) = false := by
          rw [he.id, List.isEmpty_eq_false_iff.mpr he.nonempty]
          simpa using he.short
        simp only [addText, bind_eq_ok, refuseIf_eq_ok, okOr_eq_ok, pure_eq_ok]
        exact ⟨(), hguard, e.2, by rw [utf8Text_bytesOf, String.ofList_toList], rfl⟩
      rw [List.map_cons, List.foldlM_cons, hadd]
      exact ih _ hes
  have hsame : (sourceBytes texts).size = texts.size := by
    rw [← ExtTreeMap.length_toList, toList_sourceBytes, List.length_map, ExtTreeMap.length_toList]
  have hfirst : ((sourceBytes texts).isEmpty || decide ((sourceBytes texts).size > 16)) = false := by
    have hempty : (sourceBytes texts).isEmpty = false := by
      rw [ExtTreeMap.isEmpty_eq_size_beq_zero, hsame, ← ExtTreeMap.isEmpty_eq_size_beq_zero, hne]
    rw [hempty, hsame]
    simpa using hsize
  simp only [batchBytes, bind_eq_ok, refuseIf_eq_ok, pure_eq_ok, hfirst, toList_sourceBytes,
    hloop texts.toList ∅ hall, Table.insertAll_toList]
  exact ⟨(), trivial, texts, rfl, (), by simpa using hshort, rfl⟩

theorem allRecords_sourceBytes : allRecords (sourceBytes texts) = .ok rs ↔
    ∃ all, Sources texts.values all ∧ rs = all.flatten := by
  simp only [allRecords, bind_eq_ok, pure_eq_ok, mapM_eq_ok, toList_sourceBytes,
    List.forall₂_map_left_iff, Table.values, Sources]
  exact exists_congr fun all => and_congr_right fun _ => eq_comm

/-- A reported batch is the batch of its sources. -/
theorem batchReport_eq_ok {out : Bytes} (h : batchReport sha256 bytes = .ok out) :
    ∃ texts, decodeAs Batch.ofJson bytes = some ⟨1, texts⟩ ∧
      batchBytes (sourceBytes texts) = .ok bytes := by
  simp only [batchReport, bind_eq_ok, okOr_eq_ok, refuseIf_eq_ok, exists_const,
    Bool.or_eq_false_iff, bne_eq_false_iff_eq] at h
  obtain ⟨⟨version, texts⟩, hdecode, ⟨hversion, -⟩, encoded, hbatch, hsame, -⟩ := h
  change version = 1 at hversion
  subst hversion hsame
  exact ⟨texts, hdecode, hbatch⟩

/-- **All that the report of a batch can do**: it tallies the records of all sources, or the
calculation of one of them fails. -/
theorem batchReport_cases (sha256 : Bytes → Bytes) (h : batchBytes sources = .ok encoded) :
    (∃ (rs : List (Key × Int)) (totals : Totals) (groups : List Group),
      allRecords sources = .ok rs ∧ Held rs ∧ Tallies totals rs ∧
        totals.toList.mapM group = .ok groups ∧ batchReport sha256 encoded =
          .ok (toVec (sorted (Report.mk 1 "invoice-summary-v1" (hex (sha256 encoded)) rs.length
            groups).toJson))) ∨
    ∃ (id : String) (source : Bytes) (e : Stop), sources[id]? = some source ∧
      calculate sha256 source = .error e ∧ batchReport sha256 encoded = .error e := by
  obtain ⟨texts, rfl, rfl, -, -, hsize⟩ := batchBytes_eq_ok h
  have hfew : ([] : List (Key × Int)).length + 10000 * texts.values.length ≤ 160000 := by
    have hlength := congrArg List.length (@toList_sourceBytes texts)
    rw [ExtTreeMap.length_toList, List.length_map] at hlength
    rw [List.length_nil, Table.values, List.length_map]
    omega
  have hguard : ((Batch.mk 1 texts).schemaVersion != 1 ||
      (Batch.mk 1 texts).bytes != (Batch.mk 1 texts).bytes) = false := by simp
  have hsame : ((Batch.mk 1 texts).bytes != (Batch.mk 1 texts).bytes) = false := by simp
  have hbatch : batchBytes ((Batch.mk 1 texts).sources.map fun _ text => bytesOf text.toList) =
      .ok (Batch.mk 1 texts).bytes := h
  obtain ⟨all, t, hall, ht, hheld, hloop⟩ | ⟨source, hs, e, herr, hloop⟩ :=
    @addSources_eq sha256 texts.values [] ∅ tallies_nil (by simp) hfew
  · rw [List.nil_append] at ht hheld hloop
    have hamounts : ∀ e ∈ t.toList, |e.2.2| < 2 ^ 127 := by
      intro e he
      obtain ⟨-, hv⟩ := ht.entry.mp he
      rw [hv]
      exact (hheld.total e.1).trans (by decide)
    obtain ⟨groups, hread⟩ : ∃ groups, t.toList.mapM group = .ok groups := by
      refine mapM_completes fun e he => ?_
      obtain ⟨g, hg, -⟩ := group_eq (hamounts e he)
      exact ⟨g, hg⟩
    refine .inl ⟨all.flatten, t, groups, allRecords_sourceBytes.mpr ⟨all, hall, rfl⟩, hheld, ht,
      hread, ?_⟩
    simp only [batchReport, bind_eq_ok, okOr_eq_ok, refuseIf_eq_ok, pure_eq_ok]
    exact ⟨_, decodeAs_batch _, (), hguard, _, hbatch, (), hsame, _, hloop, groups,
      (batchGroups_eq hamounts).trans hread, rfl⟩
  · obtain ⟨entry, hentry, rfl⟩ := List.mem_map.mp hs
    refine .inr ⟨entry.1, bytesOf entry.2.toList, e, ?_, herr, ?_⟩
    · rw [sourceBytes, Table.get_map, Table.mem_toList_iff_get.mp hentry]
      rfl
    · have hloop' : texts.values.foldlM (addSource sha256) (0, ∅) = .error e := hloop
      simp only [batchReport, decodeAs_batch, okOr, refuseIf, hguard, bind, Except.bind,
        Bool.false_eq_true, if_false]
      rw [hbatch]
      simp only [hsame, hloop', Bool.false_eq_true, if_false]

/-! ## The totals -/

/-- What a batch says of sums that do not fit. -/
def BatchOverflow (e : Stop) : Prop :=
  Overflow e ∨ e ∈ [.refused "batch record count overflow", .refused "batch group count overflow",
    .refused batchOverflow]

theorem not_batchOverflow {m : String} (h : m ∈ refusals) : ¬ BatchOverflow (.refused m) := by
  have hall : ∀ m ∈ refusals, m ∉ ["batch record count overflow", "batch group count overflow",
      batchOverflow] := by decide
  have hm := hall m h
  have hone := not_overflow h
  simpa [BatchOverflow, hone] using hm

/-- The records of a source are what its rows say. -/
theorem recordsOf_denotes (h : recordsOf bytes = .ok rs) :
    ∃ header records cols, parseCsv bytes = .ok (header :: records) ∧ Named header cols ∧
      List.Forall₂ (Records cols) records rs := by
  obtain ⟨header, records, names, cols, hparse, -, hcols, htells⟩ := recordsOf_eq_ok.mp h
  exact ⟨header, records, cols, hparse, columns_named hcols,
    htells.imp fun _ _ => readRecord_records⟩

theorem recordsOf_of_all {id : String} (h : allRecords sources = .ok rs)
    (hid : sources[id]? = some bytes) : ∃ own, recordsOf bytes = .ok own := by
  simp only [allRecords, bind_eq_ok, pure_eq_ok, mapM_eq_ok] at h
  obtain ⟨all, hall, -⟩ := h
  have hmem : ((id, bytes) : String × Bytes) ∈ sources.toList := Table.mem_toList_iff_get.mpr hid
  generalize sources.toList = list at hall hmem
  induction hall with
  | nil => cases hmem
  | cons hread _ ih =>
    rcases List.mem_cons.mp hmem with rfl | hmem
    · exact ⟨_, hread⟩
    · exact ih hmem

/-- **The totals of a batch are those of all records.** A batch is reported where each of its
sources is, no sum overflows, and the groups are in order, one for each month and currency that
occurs, with the count and the exact sum of the records of all sources; how the records are
distributed over named sources changes the digest only. -/
theorem batch_totals_exact (sha256 : Bytes → Bytes) (sources : Table Bytes) (encoded : Bytes)
    (h : batchBytes sources = .ok encoded) :
    ((∃ out, batchReport sha256 encoded = .ok out) ↔ ∀ (id : String) source,
      sources[id]? = some source → ∃ out, reportBytes sha256 source = .ok out) ∧
    (∀ e, batchReport sha256 encoded = .error e → ¬ BatchOverflow e) ∧
    (∀ source rs, recordsOf source = .ok rs → ∃ header records cols,
      parseCsv source = .ok (header :: records) ∧ Named header cols ∧
        List.Forall₂ (Records cols) records rs) ∧
    ∀ out, batchReport sha256 encoded = .ok out → ∃ rs groups, allRecords sources = .ok rs ∧
      out = toVec (sorted (Report.mk 1 "invoice-summary-v1" (hex (sha256 encoded)) rs.length
        groups).toJson) ∧
      groups.Pairwise Group.Before ∧
      (∀ k, (∃ g ∈ groups, (g.month, g.currency) = k) ↔ ∃ e ∈ rs, e.1 = k) ∧
      (∀ g ∈ groups,
        g.Holds (count rs (g.month, g.currency)) (total rs (g.month, g.currency))) ∧
      ∀ sources' encoded' rs', batchBytes sources' = .ok encoded' →
        allRecords sources' = .ok rs' → rs'.Perm rs → batchReport sha256 encoded' =
          .ok (toVec (sorted (Report.mk 1 "invoice-summary-v1" (hex (sha256 encoded')) rs.length
            groups).toJson)) := by
  refine ⟨?_, ?_, fun source rs => recordsOf_denotes, ?_⟩
  · obtain ⟨rs, totals, groups, hrs, -, -, -, hreport⟩ | ⟨id, source, e, hid, herr, hreport⟩ :=
      batchReport_cases sha256 h
    · exact ⟨fun _ id source hid => reportBytes_iff.mpr (recordsOf_of_all hrs hid),
        fun _ => ⟨_, hreport⟩⟩
    · constructor
      · rintro ⟨out, hout⟩
        rw [hreport] at hout
        cases hout
      · intro hall
        obtain ⟨out, hout⟩ := hall id source hid
        rw [reportBytes, herr] at hout
        cases hout
  · intro e he
    obtain ⟨_, _, _, -, -, -, -, hreport⟩ | ⟨id, source, e', -, herr, hreport⟩ :=
      batchReport_cases sha256 h
    · rw [hreport] at he
      cases he
    · rw [hreport] at he
      cases he
      obtain ⟨m, hm, rfl⟩ := refuses_calculate e herr
      exact not_batchOverflow hm
  · intro out hout
    obtain ⟨rs, totals, groups, hrs, hheld, ht, hgroups, hreport⟩ |
      ⟨id, source, e, -, -, hreport⟩ := batchReport_cases sha256 h
    · have hbound : ∀ k, |total rs k| < 2 ^ 127 := fun k => (hheld.total k).trans (by decide)
      obtain ⟨hsorted, hkeys, hholds, -⟩ := groups_hold ht hbound hgroups
      rw [hreport] at hout
      cases hout
      refine ⟨rs, groups, hrs, rfl, hsorted, hkeys, hholds, ?_⟩
      intro sources' encoded' rs' h' hrs' hperm
      obtain ⟨rs₂, totals', groups', hrs₂, -, ht', hgroups', hreport'⟩ |
        ⟨id, source, e, hid, herr, -⟩ := batchReport_cases sha256 h'
      · obtain rfl : rs₂ = rs' := Except.ok.inj (hrs₂.symm.trans hrs')
        obtain rfl : totals' = totals := ht'.perm ht hperm
        obtain rfl : groups' = groups := Except.ok.inj (hgroups'.symm.trans hgroups)
        rw [hreport', hperm.length_eq]
      · obtain ⟨own, hown⟩ := recordsOf_of_all hrs' hid
        obtain ⟨_, _, -, -, hr⟩ := @calculate_recordsOf sha256 source own hown
        rw [herr] at hr
        cases hr
    · rw [hreport] at hout
      cases hout

/-- A source with one record. -/
def oneRecord : String := "invoice_date,amount,currency\n2026-10-01,-1.25,USD\n"

/-- Another of the same month and currency. -/
def otherRecord : String := "invoice_date,amount,currency\n2026-10-09,2.50,USD\n"

def twoSources : Table Bytes :=
  ((∅ : Table Bytes).insert "first" (bytesOf oneRecord.toList)).insert "second"
    (bytesOf otherRecord.toList)

def twoEncoded : Bytes :=
  (Batch.mk 1 (((∅ : Table String).insert "first" oneRecord).insert "second" otherRecord)).bytes

/-- They are one group of `1.25`. -/
theorem batch_totals_exact_two : batchBytes twoSources = .ok twoEncoded ∧ ∃ groups,
    batchReport (fun _ => []) twoEncoded = .ok (toVec (sorted (Report.mk 1 "invoice-summary-v1"
      (hex []) 2 groups).toJson)) ∧
    (∃ g ∈ groups, (g.month, g.currency) = ("2026-10", "USD")) ∧
    ∀ g ∈ groups, (g.month, g.currency) = ("2026-10", "USD") ∧ g.Holds 2 125 := by
  have h : batchBytes twoSources = .ok twoEncoded := by decide +kernel
  have hread : allRecords twoSources =
      .ok [(("2026-10", "USD"), -125), (("2026-10", "USD"), 250)] := by
    decide +kernel
  obtain ⟨hreported, -, -, hexact⟩ := batch_totals_exact (fun _ => []) twoSources twoEncoded h
  obtain ⟨out, hout⟩ := hreported.mpr fun id source hid =>
    reportBytes_iff.mpr (recordsOf_of_all hread hid)
  obtain ⟨rs, groups, hrs, rfl, -, hkeys, hholds, -⟩ := hexact out hout
  obtain rfl := Except.ok.inj (hrs.symm.trans hread)
  refine ⟨h, groups, hout, (hkeys _).mpr ⟨_, List.mem_cons_self, rfl⟩, fun g hg => ?_⟩
  have hkey : (g.month, g.currency) = ("2026-10", "USD") := by
    obtain ⟨e, he, hkey⟩ := (hkeys _).mp ⟨g, hg, rfl⟩
    rcases List.mem_pair.mp he with rfl | rfl
    · exact hkey.symm
    · exact hkey.symm
  have hg := hholds g hg
  rw [hkey] at hg
  exact ⟨hkey, hg⟩

end

end LumaOS.Calculation
