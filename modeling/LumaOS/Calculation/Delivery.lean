import LumaOS.Calculation.Width
import LumaOS.Publication.Receipt

/-!
# Delivering a report

`Output`, `parse_output` and the end of `worker` of `workflow_resource.rs`. The worker records the
digest of its report as complete and only then encodes it; the service reads the envelope back and
refuses a report of more than two mebibytes. A mebibyte of input can hold more groups than that.

* `parseOutput_iff`: the service refuses the worker's envelope for the size of the report only.
* `delivers_iff`: the report arrives where its width is within two mebibytes, as that of a single
  source always is.
* `large_batch_lost`: a batch of three sources whose report does not arrive.
-/

namespace LumaOS.Calculation

open LumaOS.Base LumaOS.Text LumaOS.Json LumaOS.Publication Std

/-! ## The envelope -/

def maxOutput : Nat := 4 * 1024 * 1024

/-- `resources::Token`, read. -/
def tokenOfJson (v : Value) : Option Token := do
  let leaseId ← (v.get "lease_id").asStr
  let generation ← (v.get "generation").asDecimal
  let managerEpoch ← (v.get "manager_epoch").asStr
  pure ⟨leaseId, UInt64.ofNat generation, managerEpoch⟩

structure Output where
  schemaVersion : UInt32
  sourceSha256 : String
  lease : Token
  report : String
deriving DecidableEq

def Output.toJson (o : Output) : Value :=
  .object [("schema_version", u32Json o.schemaVersion), ("source_sha256", .string o.sourceSha256),
    ("lease", o.lease.toJson), ("report", .string o.report)]

def Output.ofJson (v : Value) : Option Output := do
  let schemaVersion ← (v.get "schema_version").asU32
  let sourceSha256 ← (v.get "source_sha256").asStr
  let lease ← tokenOfJson (v.get "lease")
  let report ← (v.get "report").asStr
  pure ⟨schemaVersion, sourceSha256, lease, report⟩

/-- `serde_json::to_vec(&output)`. -/
def Output.bytes (o : Output) : Bytes := toVec o.toJson

def isArray : Value → Bool
  | .array _ => true
  | _ => false

def parseOutput (bytes : Bytes) (expected : String) : Result Output := do
  refuseIf (bytes.isEmpty || bytes.length ≥ maxOutput) "calculation output exceeds its fixed bound"
  let output ← okOr (decodeAs Output.ofJson bytes)
    "calculation output is not a closed receipt envelope"
  refuseIf (output.schemaVersion != 1 || output.sourceSha256 != expected ||
    output.report.isEmpty || output.report.utf8ByteSize > 2 * maxSource ||
    !tokenValid output.lease || output.bytes != bytes)
    "calculation output identity or canonical encoding differs"
  let report ← okOr (decodeAs some (bytesOf output.report.toList)) "calculation report is not JSON"
  refuseIf ((report.get "schema_version").asU64 != some 1 ||
    (report.get "report_type").asStr != some "invoice-summary-v1" ||
    (report.get "source_sha256").asStr != some expected || !isArray (report.get "groups"))
    "calculation report provenance differs"
  pure output

/-- The worker behind `complete_output`: the source has the digest that the profile names. -/
def encodeOutput (expected : String) (lease : Token) (report : Bytes) : Result Bytes := do
  let report ← okOr (utf8Text report) "invalid utf-8 sequence"
  let encoded := (Output.mk 1 expected lease report).bytes
  refuseIf (encoded.length ≥ maxOutput) "calculation output exceeds fixed bound"
  pure encoded

/-- **The report arrives**: the worker encodes it within its bound, and the service reads back the
lease and the report. -/
def Delivers (sha256 : Bytes → Bytes) (bytes : Bytes) (lease : Token) (report : Bytes) : Prop :=
  ∃ text encoded, utf8Text report = some text ∧
    encodeOutput (hex (sha256 bytes)) lease report = .ok encoded ∧ encoded.length < maxOutput ∧
      parseOutput encoded (hex (sha256 bytes)) = .ok ⟨1, hex (sha256 bytes), lease, text⟩

section

variable {sha256 : Bytes → Bytes} {bytes report : Bytes} {rs : List (Key × Int)} {totals : Totals}
  {r : Report} {lease : Token} {profile : Profile}

/-! ## Reading the envelope back -/

theorem length_toVec (v : Value) : (toVec v).length = (text v).utf8ByteSize := rfl

theorem tokenOfJson_toJson (t : Token) : tokenOfJson t.toJson = some t := by
  have hgeneration : (t.toJson.get "generation").asDecimal = some t.generation.toNat :=
    asDecimal_decimal t.generation.toNat_lt
  simp only [tokenOfJson, hgeneration]
  change some (Token.mk t.leaseId (UInt64.ofNat t.generation.toNat) t.managerEpoch) = some t
  rw [UInt64.ofNat_toNat]

theorem decodeAs_output (o : Output) : decodeAs Output.ofJson o.bytes = some o := by
  have hdepth : depth o.toJson = 2 := rfl
  have hversion : (o.toJson.get "schema_version").asU32 = some o.schemaVersion :=
    asU32_u32Json o.schemaVersion
  have hlease : tokenOfJson (o.toJson.get "lease") = some o.lease := tokenOfJson_toJson o.lease
  rw [Output.bytes, decodeAs_toVec (by rw [hdepth]; decide)]
  simp only [Output.ofJson, hversion, hlease]
  rfl

/-- **The size of the envelope.** -/
theorem size_output (o : Output) (hsource : isHash o.sourceSha256 = true)
    (hversion : o.schemaVersion = 1) (hlease : tokenValid o.lease = true) :
    o.bytes.length ≤ escapedSize o.report + 900 := by
  have hμ := weighs_size
  have h1 : (quote "schema_version").utf8ByteSize = _ := hμ.quoted (by decide)
  have h2 : (quote "source_sha256").utf8ByteSize = _ := hμ.quoted (by decide)
  have h3 : (quote "lease").utf8ByteSize = _ := hμ.quoted (by decide)
  have h4 : (quote "report").utf8ByteSize = _ := hμ.quoted (by decide)
  have s1 : "schema_version".utf8ByteSize = 14 := rfl
  have s2 : "source_sha256".utf8ByteSize = 13 := rfl
  have s3 : "lease".utf8ByteSize = 5 := rfl
  have s4 : "report".utf8ByteSize = 6 := rfl
  obtain ⟨hverbatim, hlength⟩ := verbatim_hash hsource
  have v1 : (text (u32Json 1)).utf8ByteSize = 1 := hμ.number 1
  have v2 : (text (.string o.sourceSha256)).utf8ByteSize = _ := hμ.string hverbatim
  have v3 := (utf8ByteSize_text_le o.lease.toJson).trans (sizeBound_token hlease)
  have v4 : (text (.string o.report)).utf8ByteSize = _ := utf8ByteSize_quote o.report
  rw [Output.bytes, length_toVec, Output.toJson, hμ.object (List.cons_ne_nil _ _)]
  simp only [List.map_cons, List.map_nil, List.sum_cons, List.sum_nil, hversion, h1, h2, h3, h4,
    v1, v2, v4, s1, s2, s3, s4, hlength]
  omega

theorem Group.depth_sortedJson (g : Group) : depth g.sortedJson ≤ 1 := Nat.le_refl 1

/-- The report in either order of its fields is read back, and names its source. -/
theorem report_read (r : Report) (hversion : r.schemaVersion = 1) (v : Value)
    (hv : v = r.toJson ∨ v = sorted r.toJson) : depth v ≤ 3 ∧
      (v.get "schema_version").asU64 = some 1 ∧ (v.get "report_type").asStr = some r.reportType ∧
        (v.get "source_sha256").asStr = some r.sourceSha256 ∧ isArray (v.get "groups") = true := by
  have hone : (Value.number ((1 : Nat) : Int)).asU64 = some 1 := by decide
  obtain rfl | rfl := hv
  · refine ⟨r.depth_toJson, ?_, rfl, rfl, rfl⟩
    change (Value.number (r.schemaVersion : Int)).asU64 = some 1
    rw [hversion, hone]
  · rw [sorted_report]
    refine ⟨?_, ?_, rfl, rfl, rfl⟩
    · have := depths_map Group.depth_sortedJson r.groups
      simp only [depth, fieldDepths]
      omega
    · change (Value.number (r.schemaVersion : Int)).asU64 = some 1
      rw [hversion, hone]

/-- **The service refuses a long report only.** -/
theorem parseOutput_iff {o : Output} {expected : String} {v : Value} (hversion : o.schemaVersion = 1)
    (hsource : o.sourceSha256 = expected) (hlease : tokenValid o.lease = true)
    (hreport : o.report = text v) (hshort : o.bytes.length < maxOutput)
    (hr : r.schemaVersion = 1 ∧ r.reportType = "invoice-summary-v1" ∧ r.sourceSha256 = expected)
    (hv : v = r.toJson ∨ v = sorted r.toJson) :
    parseOutput o.bytes expected = .ok o ↔ o.report.utf8ByteSize ≤ 2 * maxSource := by
  obtain ⟨hdepth, hone, htype, hname, harray⟩ := report_read r hr.1 v hv
  have hread : decodeAs some (bytesOf o.report.toList) = some v := by
    rw [hreport, ← toVec_eq_bytesOf, decodeAs_toVec (hdepth.trans (by decide))]
  have hfirst : (o.bytes.isEmpty || decide (o.bytes.length ≥ maxOutput)) = false := by
    have hpos : o.bytes.isEmpty = false := by
      rw [List.isEmpty_eq_false_iff, ← List.length_pos_iff, Output.bytes, length_toVec,
        Output.toJson, weighs_size.object (List.cons_ne_nil _ _)]
      omega
    rw [hpos, Bool.false_or, decide_eq_false_iff_not, ge_iff_le, Nat.not_le]
    exact hshort
  have hlast : ((v.get "schema_version").asU64 != some 1 ||
      (v.get "report_type").asStr != some "invoice-summary-v1" ||
      (v.get "source_sha256").asStr != some expected || !isArray (v.get "groups")) = false := by
    rw [hone, htype, hname, harray, hr.2.1, hr.2.2]
    simp
  have hne : o.report.isEmpty = false := by
    have hpos : 0 < (text v).utf8ByteSize := by
      obtain rfl | rfl := hv
      · rw [Report.toJson, weighs_size.object (List.cons_ne_nil _ _)]
        omega
      · rw [sorted_report, weighs_size.object (List.cons_ne_nil _ _)]
        omega
    rw [hreport, String.isEmpty_eq_false_iff]
    intro hempty
    rw [hempty] at hpos
    exact absurd hpos (by decide)
  simp only [parseOutput, bind_eq_ok, refuseIf_eq_ok, okOr_eq_ok, pure_eq_ok, exists_const, hfirst,
    decodeAs_output, true_and]
  constructor
  · rintro ⟨o', ho', hguard, -⟩
    obtain rfl := Option.some.inj ho'
    simp only [Bool.or_eq_false_iff, decide_eq_false_iff_not, gt_iff_lt, Nat.not_lt] at hguard
    exact hguard.1.1.2
  · intro hsize
    refine ⟨o, rfl, ?_, v, hread, hlast, rfl⟩
    simp only [Bool.or_eq_false_iff, decide_eq_false_iff_not, gt_iff_lt, Nat.not_lt, hversion,
      hsource, hne, hlease]
    simpa using hsize

/-! ## What arrives -/

theorem printed_pos (n : Nat) : 0 < printed n := List.length_pos_iff.mpr Nat.toDigits_ne_nil

theorem printed_le {n b : Nat} (hb : 0 < b) (h : n < 10 ^ b) : printed n ≤ b :=
  (Nat.length_toDigits_le_iff (by decide) hb).mpr h

/-- A line takes at least seventy bytes. -/
theorem le_lineWidth (rs : List (Key × Int)) (k : Key) : 70 ≤ lineWidth rs k := by
  have h1 := printed_pos (count rs k)
  have h2 := printed_pos ((total rs k).natAbs / 100)
  rw [lineWidth, amountWidth]
  omega

theorem le_reportWidth (rs : List (Key × Int)) :
    70 * (rs.map Prod.fst).dedup.length ≤ reportWidth rs := by
  have hsum := List.card_nsmul_le_sum (((rs.map Prod.fst).dedup).map (lineWidth rs)) 70
    fun n hn => by
      obtain ⟨k, -, rfl⟩ := List.mem_map.mp hn
      exact le_lineWidth rs k
  rw [List.length_map, nsmul_eq_mul, Nat.cast_id] at hsum
  rw [reportWidth]
  omega

theorem Reported.size (h : Reported sha256 bytes rs r totals)
    (hsha : ∀ bytes, (sha256 bytes).length = 32) :
    (text r.toJson).utf8ByteSize = reportWidth rs ∧
      (text (sorted r.toJson)).utf8ByteSize = reportWidth rs := by
  obtain ⟨hsize, hsame⟩ := h.weight hsha weighs_size
  rw [hsame, hsize, reportWidth]
  exact ⟨rfl, rfl⟩

/-- The envelope escapes fourteen quotes for each line, and as many more. -/
theorem Reported.escaped (h : Reported sha256 bytes rs r totals)
    (hsha : ∀ bytes, (sha256 bytes).length = 32) :
    escapedSize (text r.toJson) = reportWidth rs + 14 + 14 * (rs.map Prod.fst).dedup.length ∧
      escapedSize (text (sorted r.toJson)) =
        reportWidth rs + 14 + 14 * (rs.map Prod.fst).dedup.length := by
  obtain ⟨hsize, hsame⟩ := h.weight hsha weighs_escaped
  have hsum : ∀ keys : List Key, (keys.map fun k =>
      51 + 14 * 2 + printed (count rs k) + amountWidth (Base.total rs k)).sum =
        (keys.map (lineWidth rs)).sum + 14 * keys.length := by
    intro keys
    induction keys with
    | nil => rfl
    | cons k keys ih =>
      rw [List.map_cons, List.sum_cons, ih, List.map_cons, List.sum_cons, List.length_cons,
        lineWidth]
      omega
  rw [hsame, hsize, hsum, reportWidth]
  omega

/-- The report of a single source is short. -/
theorem reportWidth_single (hrs : recordsOf bytes = .ok rs) : reportWidth rs ≤ 2 * maxSource := by
  have hbounded := recordsOf_bounded hrs
  have hfew := hbounded.few
  have hheld : Held rs := ⟨hfew.trans (by decide), hbounded.small⟩
  have hline : ∀ k, lineWidth rs k ≤ 111 := by
    intro k
    have hcount := (@count_le_length _ _ rs k).trans hfew
    have htotal := abs_lt.mp (hheld.total k)
    have h1 : printed (count rs k) ≤ 5 := printed_le (by decide) (by omega)
    have h2 : printed ((total rs k).natAbs / 100) ≤ 37 := printed_le (by decide) (by omega)
    rw [lineWidth, amountWidth]
    split <;> omega
  have hsum := List.sum_le_card_nsmul (((rs.map Prod.fst).dedup).map (lineWidth rs)) 111
    fun n hn => by
      obtain ⟨k, -, rfl⟩ := List.mem_map.mp hn
      exact hline k
  have hkeys := (List.dedup_sublist (rs.map Prod.fst)).length_le
  have hlength : printed rs.length ≤ 5 := printed_le (by decide) (by omega)
  rw [List.length_map, nsmul_eq_mul, Nat.cast_id] at hsum
  rw [List.length_map] at hkeys
  rw [reportWidth, maxSource]
  omega

/-- The report arrives where it is within two mebibytes. -/
theorem delivers_width (hsha : ∀ bytes, (sha256 bytes).length = 32)
    (hreport : profile.report sha256 bytes = .ok report) (hlease : tokenValid lease = true) :
    ∃ rs, inputRecords bytes profile = .ok rs ∧
      (Delivers sha256 bytes lease report ↔ reportWidth rs ≤ 2 * maxSource) := by
  obtain ⟨rs, r, totals, hinput, hrep, hdoc⟩ := report_eq_ok hreport
  obtain ⟨v, hv, hvec⟩ : ∃ v, (v = r.toJson ∨ v = sorted r.toJson) ∧ report = toVec v := by
    cases profile with
    | single => exact ⟨_, .inl rfl, hdoc⟩
    | batch => exact ⟨_, .inr rfl, hdoc⟩
  have hsize : (text v).utf8ByteSize = reportWidth rs := by
    obtain rfl | rfl := hv
    · exact (hrep.size hsha).1
    · exact (hrep.size hsha).2
  have hescaped : escapedSize (text v) =
      reportWidth rs + 14 + 14 * (rs.map Prod.fst).dedup.length := by
    obtain rfl | rfl := hv
    · exact (hrep.escaped hsha).1
    · exact (hrep.escaped hsha).2
  have htext : utf8Text report = some (text v) := by
    rw [hvec, toVec_eq_bytesOf, utf8Text_bytesOf, String.ofList_toList]
  have hsource : isHash (hex (sha256 bytes)) = true := isHash_hex (hsha bytes)
  have hencoded : (Output.mk 1 (hex (sha256 bytes)) lease (text v)).bytes.length ≤
      escapedSize (text v) + 900 := size_output _ hsource rfl hlease
  have hiff := fun hshort => @parseOutput_iff r ⟨1, hex (sha256 bytes), lease, text v⟩ _ v rfl rfl
    hlease rfl hshort ⟨hrep.version, hrep.type, hrep.source⟩ hv
  have hdelivers : Delivers sha256 bytes lease report ↔ reportWidth rs ≤ 2 * maxSource := by
    constructor
    · rintro ⟨t, encoded, ht, hencode, hshort, hparse⟩
      obtain rfl := Option.some.inj (htext.symm.trans ht)
      simp only [encodeOutput, bind_eq_ok, okOr_eq_ok, refuseIf_eq_ok, pure_eq_ok, htext] at hencode
      obtain ⟨t, ht, -, -, rfl⟩ := hencode
      obtain rfl := Option.some.inj ht
      rw [← hsize]
      exact (hiff hshort).mp hparse
    · intro hfits
      have hlines := le_reportWidth rs
      have hshort : (Output.mk 1 (hex (sha256 bytes)) lease (text v)).bytes.length < maxOutput := by
        rw [maxSource] at hfits
        rw [maxOutput]
        omega
      refine ⟨text v, _, htext, ?_, hshort, (hiff hshort).mpr (by rwa [hsize])⟩
      simp only [encodeOutput, bind_eq_ok, okOr_eq_ok, refuseIf_eq_ok, pure_eq_ok, htext]
      exact ⟨_, rfl, (), by simpa using hshort, rfl⟩
  exact ⟨rs, hinput, hdelivers⟩

/-- **When a report is delivered.** Of every input whose report is computed, the report arrives with
its lease where the records take up two mebibytes at most, line by line; those of a single source
always do. -/
theorem delivers_iff (sha256 : Bytes → Bytes) (hsha : ∀ bytes, (sha256 bytes).length = 32)
    (profile : Profile) (bytes report : Bytes) (hreport : profile.report sha256 bytes = .ok report)
    (lease : Token) (hlease : tokenValid lease = true) :
    ∃ rs, inputRecords bytes profile = .ok rs ∧
      (Delivers sha256 bytes lease report ↔ reportWidth rs ≤ 2 * maxSource) ∧
      (profile = .single → Delivers sha256 bytes lease report) := by
  obtain ⟨rs, hinput, hdelivers⟩ := delivers_width hsha hreport hlease
  refine ⟨rs, hinput, hdelivers, ?_⟩
  rintro rfl
  exact hdelivers.mpr (reportWidth_single hinput)

/-- A digest of the length that SHA-256 has. -/
def zeroDigest (_ : Bytes) : Bytes := List.replicate 32 0

def largeLease : Token :=
  ⟨"0123456789abcdef0123456789abcdef", 1, "fedcba9876543210fedcba9876543210"⟩

theorem delivers_iff_one : ∃ report,
    Profile.single.report zeroDigest (bytesOf oneRecord.toList) = .ok report ∧
      Delivers zeroDigest (bytesOf oneRecord.toList) largeLease report := by
  have hrs : recordsOf (bytesOf oneRecord.toList) = .ok [(("2026-10", "USD"), -125)] := by
    decide +kernel
  have hreported : ∀ {bytes rs}, recordsOf bytes = .ok rs →
      ∃ report, Profile.single.report zeroDigest bytes = .ok report :=
    fun h => reportBytes_iff.mpr ⟨_, h⟩
  obtain ⟨report, hreport⟩ := hreported hrs
  obtain ⟨rs, -, -, hsingle⟩ := delivers_iff zeroDigest (fun _ => List.length_replicate) .single
    (bytesOf oneRecord.toList) report hreport largeLease (by decide)
  exact ⟨report, hreport, hsingle rfl⟩

end

/-! ## A batch that does not arrive -/

section

/-- The n-th capital letter. -/
def letter (n : Nat) : Char := Char.ofNat (65 + n)

/-- The j-th currency code. -/
def code (j : Nat) : String :=
  String.ofList [letter (j / 676), letter (j / 26 % 26), letter (j % 26)]

def largeHeader : List String := ["invoice_date", "amount", "currency"]

/-- A row for each of ten thousand currencies. -/
def largeRows (date : String) : List (List String) :=
  (List.range 10000).map fun j => [date, "1", code j]

def rowChars (row : List String) : List Char := (",".intercalate row).toList ++ ['\n']

/-- A source with ten thousand records of one month. -/
def largeText (date : String) : String :=
  String.ofList ((largeHeader :: largeRows date).flatMap rowChars)

/-- Three months of such records. -/
def largeTexts : Table String :=
  [("a", largeText "2026-01-01"), ("b", largeText "2026-02-01"), ("c", largeText "2026-03-01")].foldl
    (fun t e => t.insert e.1 e.2) ∅

def largeBatch : Bytes := (Batch.mk 1 largeTexts).bytes

/-- The records of one month. -/
def largeRecords (month : String) : List (Key × Int) :=
  (List.range 10000).map fun j => ((month, code j), 100)

theorem length_bytesOf (s : String) : (bytesOf s.toList).length = s.utf8ByteSize := by
  have h : s.toUTF8 = (bytesOf s.toList).toByteArray := String.utf8Encode_toList.symm
  rw [← @List.toList_data_toByteArray (bytesOf s.toList), ← h]
  rfl

/-- What the proof needs of a date. -/
structure LargeDate (date month : String) : Prop where
  read : dateMonth date = .ok month
  length : date.toList.length = 10
  chars : ∀ c ∈ date.toList, special c = false ∧ plainChar c ∧ Copied c ∧ c.toNat < 128

theorem letter_upper : ∀ n < 26, (letter n).isUpper = true ∧ (letter n).toNat = 65 + n := by
  decide

theorem upper_char {c : Char} (h : c.isUpper = true) :
    special c = false ∧ plainChar c ∧ Copied c ∧ c.toNat < 128 := by
  simp only [Char.isUpper, decide_eq_true_eq, ge_iff_le, UInt32.le_iff_toNat_le] at h
  have hlow : 65 ≤ c.toNat := h.1
  have hhigh : c.toNat ≤ 90 := h.2
  have hne : ∀ d : Char, d.toNat < 65 → c ≠ d := by
    rintro d hd rfl
    omega
  refine ⟨?_, ⟨hne _ (by decide), hne _ (by decide)⟩, copied_of_ascii (by omega) (by omega),
    by omega⟩
  rw [special, Bool.or_eq_false_iff, Bool.or_eq_false_iff]
  exact ⟨⟨beq_eq_false_iff_ne.mpr (hne _ (by decide)), beq_eq_false_iff_ne.mpr (hne _ (by decide))⟩,
    beq_eq_false_iff_ne.mpr (hne _ (by decide))⟩

theorem code_upper {j : Nat} (h : j < 10000) : ∀ c ∈ (code j).toList, c.isUpper = true := by
  intro c hc
  rw [code, String.toList_ofList] at hc
  simp only [List.mem_cons, List.not_mem_nil, or_false] at hc
  rcases hc with rfl | rfl | rfl
  · exact (letter_upper _ (by omega)).1
  · exact (letter_upper _ (by omega)).1
  · exact (letter_upper _ (by omega)).1

theorem code_injective {i j : Nat} (hi : i < 10000) (hj : j < 10000) (h : code i = code j) :
    i = j := by
  have hlist := String.ofList_injective h
  simp only [List.cons.injEq, and_true] at hlist
  obtain ⟨h1, h2, h3⟩ := hlist
  have e1 := congrArg Char.toNat h1
  have e2 := congrArg Char.toNat h2
  have e3 := congrArg Char.toNat h3
  rw [(letter_upper _ (by omega)).2, (letter_upper _ (by omega)).2] at e1 e2 e3
  omega

theorem largeDate_first : LargeDate "2026-01-01" "2026-01" :=
  ⟨by decide, by decide, by unfold plainChar Copied; decide⟩

theorem largeDate_second : LargeDate "2026-02-01" "2026-02" :=
  ⟨by decide, by decide, by unfold plainChar Copied; decide⟩

theorem largeDate_third : LargeDate "2026-03-01" "2026-03" :=
  ⟨by decide, by decide, by unfold plainChar Copied; decide⟩

/-- A row of three bare fields. -/
theorem rowText_bare {a b c : String} (ha : ∀ x ∈ a.toList, special x = false)
    (hb : ∀ x ∈ b.toList, special x = false) (hc : ∀ x ∈ c.toList, special x = false) :
    RowText Eq [a, b, c] (",".intercalate [a, b, c]).toList := by
  have h : RowText Eq _ _ := RowText.mk (.cons (FieldText.bare ha) (.cons (FieldText.bare hb) .nil))
    (FieldText.bare hc)
  simpa [String.intercalate_cons_cons] using h

theorem lines_rows : ∀ {rows : List (List String)},
    (∀ row ∈ rows, RowText Eq row (",".intercalate row).toList) →
      Lines Eq Newline rows (rows.flatMap rowChars)
  | [], _ => .nil
  | row :: rows, h => by
    obtain ⟨hrow, hrows⟩ := List.forall_mem_cons.mp h
    have hlines := Lines.cons hrow (show Newline ['\n'] from rfl) (lines_rows hrows)
    rw [List.flatMap_cons, rowChars, List.append_assoc]
    exact hlines

section

variable {date month : String} (hd : LargeDate date month)
include hd

theorem mem_largeTable {row : List String} (h : row ∈ largeHeader :: largeRows date) :
    ∃ a b c, row = [a, b, c] ∧ (∀ f ∈ row, ∀ x ∈ f.toList, special x = false ∧ plainChar x) ∧
      row ≠ [""] ∧ ∀ f ∈ row, f.utf8ByteSize ≤ maxFieldBytes := by
  obtain rfl | h := List.mem_cons.mp h
  · exact ⟨_, _, _, rfl, by unfold plainChar; decide, by decide, by decide⟩
  · obtain ⟨j, hj, rfl⟩ := List.mem_map.mp h
    have hj := List.mem_range.mp hj
    have hdate : date.utf8ByteSize = 10 := by
      have hsize := (verbatim_of_copied fun c hc => (hd.chars c hc).2.2.1).2
      rwa [String.ofList_toList, hd.length] at hsize
    have hcode : (code j).utf8ByteSize = 3 := (verbatim_of_copied fun c hc =>
      (upper_char (code_upper hj c (by rwa [code, String.toList_ofList]))).2.2.1).2
    have hone : "1".utf8ByteSize = 1 := rfl
    refine ⟨date, "1", code j, rfl, ?_, by simp, ?_⟩
    · intro f hf x hx
      simp only [List.mem_cons, List.not_mem_nil, or_false] at hf
      rcases hf with rfl | rfl | rfl
      · exact ⟨(hd.chars x hx).1, (hd.chars x hx).2.1⟩
      · revert x
        unfold plainChar
        decide
      · have := upper_char (code_upper hj x hx)
        exact ⟨this.1, this.2.1⟩
    · intro f hf
      simp only [List.mem_cons, List.not_mem_nil, or_false] at hf
      rw [maxFieldBytes]
      rcases hf with rfl | rfl | rfl <;> omega

theorem largeTable_rowText {row : List String} (h : row ∈ largeHeader :: largeRows date) :
    RowText Eq row (",".intercalate row).toList := by
  obtain ⟨a, b, c, rfl, hchars, -, -⟩ := mem_largeTable hd h
  exact rowText_bare (fun x hx => (hchars a (by simp) x hx).1)
    (fun x hx => (hchars b (by simp) x hx).1) fun x hx => (hchars c (by simp) x hx).1

theorem largeTable_admissible : Admissible (largeHeader :: largeRows date) := by
  have hlength : (largeRows date).length = 10000 := by
    rw [largeRows, List.length_map, List.length_range]
  refine ⟨?_, ?_, fun row hrow => ?_, fun row hrow f hf => ?_⟩
  · rw [List.length_cons, hlength]
    decide
  · rw [List.length_cons, hlength]
    decide
  · obtain ⟨a, b, c, rfl, -, hline, hfields⟩ := mem_largeTable hd hrow
    exact ⟨List.cons_ne_nil _ _, (show 3 ≤ maxColumns by decide), hline, hfields⟩
  · obtain ⟨-, -, -, -, hchars, -, -⟩ := mem_largeTable hd hrow
    exact ⟨fun h => (hchars f hf _ h).2.1 rfl, fun h => (hchars f hf _ h).2.2 rfl⟩

theorem largeRow_size {row : List String} (h : row ∈ largeHeader :: largeRows date) :
    escapedSize (",".intercalate row) + 2 ≤ 30 := by
  obtain rfl | h := List.mem_cons.mp h
  · decide
  · obtain ⟨j, hj, rfl⟩ := List.mem_map.mp h
    have hj := List.mem_range.mp hj
    obtain ⟨hverbatim, hsize⟩ := verbatim_of_copied fun c hc => (hd.chars c hc).2.2.1
    rw [String.ofList_toList] at hverbatim hsize
    obtain ⟨hcode, hthree⟩ := verbatim_of_copied fun c hc => (upper_char (code_upper hj c hc)).2.2.1
    rw [String.ofList_toList] at hcode hthree
    have hsum := (@measure_intercalate _ measure_escaped "," [date, "1", code j]) (List.cons_ne_nil _ _)
    have hcomma : escapedSize "," = 1 := by decide
    have hone : escapedSize "1" = 1 := by decide
    have hlist : (code j).toList.length = 3 := by
      rw [code, String.toList_ofList]
      rfl
    simp only [List.map_cons, List.map_nil, List.sum_cons, List.sum_nil, hcomma, hone,
      escapedSize_verbatim hverbatim, escapedSize_verbatim hcode, hsize, hthree, hd.length,
      hlist] at hsum
    omega

theorem escapedSize_large : escapedSize (largeText date) ≤ 300030 := by
  have hrows : ∀ rows : List (List String),
      (∀ row ∈ rows, escapedSize (",".intercalate row) + 2 ≤ 30) →
        escapedSize (String.ofList (rows.flatMap rowChars)) ≤ 30 * rows.length := by
    intro rows
    induction rows with
    | nil => exact fun _ => Nat.le_refl 0
    | cons row rows ih =>
      intro h
      obtain ⟨hrow, hrows⟩ := List.forall_mem_cons.mp h
      have hnext := ih hrows
      have hline : escapedSize (String.ofList ['\n']) = 2 := by decide
      rw [List.flatMap_cons, rowChars, String.ofList_append, String.ofList_append,
        String.ofList_toList, measure_escaped, measure_escaped, hline, List.length_cons]
      omega
  have hsize := hrows (largeHeader :: largeRows date) fun row hrow => largeRow_size hd hrow
  rwa [List.length_cons, largeRows, List.length_map, List.length_range] at hsize

theorem length_large : (bytesOf (largeText date).toList).length ≤ 300030 := by
  rw [length_bytesOf]
  exact (utf8ByteSize_le_escapedSize _).trans (escapedSize_large hd)

/-- **Its records.** -/
theorem recordsOf_large : recordsOf (bytesOf (largeText date).toList) =
    .ok (largeRecords month) := by
  have hparse : parseCsv (bytesOf (largeText date).toList) =
      .ok (largeHeader :: largeRows date) := by
    refine parseCsv_eq_ok.mpr ⟨largeTable_admissible hd,
      (length_large hd).trans (by decide), _, rfl, (largeText date).toList, ?_, .refl _⟩
    rw [largeText, String.toList_ofList]
    exact .ended (lines_rows fun row hrow => largeTable_rowText hd hrow)
  obtain ⟨names, hnames⟩ : ∃ names, largeHeader.foldlM checkName ∅ = .ok names := by
    have hok : (largeHeader.foldlM checkName ∅).isOk = true := by decide +kernel
    cases h : largeHeader.foldlM checkName ∅ with
    | ok names => exact ⟨names, rfl⟩
    | error e =>
      rw [h] at hok
      cases hok
  refine recordsOf_eq_ok.mpr ⟨largeHeader, largeRows date, names, ⟨0, 1, 2⟩, hparse, hnames, rfl, ?_⟩
  rw [largeRows, largeRecords, Says, List.forall₂_map_left_iff, List.forall₂_map_right_iff, List.forall₂_same]
  intro j hj
  have hupper := code_upper (List.mem_range.mp hj)
  have hcode : (code j).utf8ByteSize = 3 := by
    have hsize := (verbatim_of_copied fun c hc => (upper_char (hupper c hc)).2.2.1).2
    rw [String.ofList_toList] at hsize
    rw [hsize, code, String.toList_ofList]
    rfl
  have hguard : ((code j).utf8ByteSize != 3 || !(code j).toList.all Char.isUpper) = false := by
    rw [hcode, List.all_eq_true.mpr hupper]
    rfl
  have hamount : cents "1" = .ok 100 := by decide
  simp only [readRecord, bind_eq_ok, refuseIf_eq_ok, expect_eq_ok, pure_eq_ok]
  exact ⟨(), rfl, date, rfl, month, hd.read, "1", rfl, 100, hamount, code j, rfl, (), hguard, rfl⟩

end

theorem toList_collected {α : Type} {l : List (String × α)}
    (h : l.Pairwise fun e f => e.1 < f.1) :
    (l.foldl (fun (t : Table α) e => t.insert e.1 e.2) ∅).toList = l := by
  have hnodup : (l.map Prod.fst).Nodup :=
    List.pairwise_map.mpr (h.imp fun hlt => Table.ne_of_lt hlt)
  have hperm := @Table.toList_insertAll_perm α _ Prod.fst Prod.snd l hnodup
  rw [show (l.map fun x => (x.1, x.2)) = l from List.map_id l] at hperm
  exact hperm.eq_of_pairwise (fun _ _ _ _ hab hba => absurd hba (String.lt_asymm hab))
    Table.sorted_toList h

theorem toList_largeTexts : largeTexts.toList = [("a", largeText "2026-01-01"),
    ("b", largeText "2026-02-01"), ("c", largeText "2026-03-01")] :=
  toList_collected (by decide)

theorem largeTexts_forall {P : String → String → Prop} (ha : P "a" (largeText "2026-01-01"))
    (hb : P "b" (largeText "2026-02-01")) (hc : P "c" (largeText "2026-03-01")) :
    ∀ e ∈ largeTexts.toList, P e.1 e.2 := by
  intro e he
  rw [toList_largeTexts] at he
  simp only [List.mem_cons, List.not_mem_nil, or_false] at he
  obtain rfl | rfl | rfl := he
  · exact ha
  · exact hb
  · exact hc

theorem nameable_large {date month id : String} (hd : LargeDate date month)
    (hid : (id.isEmpty || id.utf8ByteSize > 64 || !id.toList.all nameChar) = false) :
    Nameable id (largeText date) := by
  refine ⟨hid, bytesOf_ne_nil ?_, (length_large hd).trans (by decide)⟩
  rw [largeText, String.toList_ofList, List.flatMap_cons, rowChars]
  simp

/-- The size of a batch of three sources. -/
theorem length_three {texts : Table String} {t1 t2 t3 : String}
    (htexts : texts.toList = [("a", t1), ("b", t2), ("c", t3)]) (e1 : escapedSize t1 ≤ 300030)
    (e2 : escapedSize t2 ≤ 300030) (e3 : escapedSize t3 ≤ 300030) :
    (Batch.mk 1 texts).bytes.length ≤ maxSource := by
  have hμ := weighs_size
  have h1 : (quote "schema_version").utf8ByteSize = _ := hμ.quoted (by decide)
  have h2 : (quote "sources").utf8ByteSize = _ := hμ.quoted (by decide)
  have ha : (quote "a").utf8ByteSize = _ := hμ.quoted (by decide)
  have hb : (quote "b").utf8ByteSize = _ := hμ.quoted (by decide)
  have hc : (quote "c").utf8ByteSize = _ := hμ.quoted (by decide)
  have s1 : "schema_version".utf8ByteSize = 14 := rfl
  have s2 : "sources".utf8ByteSize = 7 := rfl
  have s3 : "a".utf8ByteSize = 1 := rfl
  have s4 : "b".utf8ByteSize = 1 := rfl
  have s5 : "c".utf8ByteSize = 1 := rfl
  have v1 : (text (u32Json 1)).utf8ByteSize = 1 := hμ.number 1
  have hstring : ∀ t, (text (.string t)).utf8ByteSize = escapedSize t + 2 := utf8ByteSize_quote
  have hsources := (@Weighs.object _ [("a", .string t1), ("b", .string t2), ("c", .string t3)]) hμ (List.cons_ne_nil _ _)
  simp only [List.map_cons, List.map_nil, List.sum_cons, List.sum_nil, hstring, ha, hb, hc, s3, s4,
    s5] at hsources
  rw [Batch.bytes, length_toVec, Batch.toJson, hμ.object (List.cons_ne_nil _ _)]
  simp only [htexts, List.map_cons, List.map_nil, List.sum_cons, List.sum_nil, h1, h2, v1, s1, s2,
    hsources]
  rw [maxSource]
  omega

/-- The batch is within the bound of its input. -/
theorem length_largeBatch : largeBatch.length ≤ maxSource :=
  length_three toList_largeTexts (escapedSize_large largeDate_first)
    (escapedSize_large largeDate_second) (escapedSize_large largeDate_third)

theorem batchBytes_large : batchBytes (sourceBytes largeTexts) = .ok largeBatch := by
  have hlength : largeTexts.size = 3 := by
    rw [← ExtTreeMap.length_toList, toList_largeTexts]
    rfl
  refine batchBytes_complete ?_ (by rw [hlength]; decide) ?_ length_largeBatch
  · rw [ExtTreeMap.isEmpty_eq_size_beq_zero, hlength]
    rfl
  · exact largeTexts_forall (nameable_large largeDate_first (by decide))
      (nameable_large largeDate_second (by decide)) (nameable_large largeDate_third (by decide))

/-- The records of the batch. -/
def allLarge : List (Key × Int) :=
  [largeRecords "2026-01", largeRecords "2026-02", largeRecords "2026-03"].flatten

theorem allRecords_large : allRecords (sourceBytes largeTexts) = .ok allLarge := by
  have hsources : Sources largeTexts.values
      [largeRecords "2026-01", largeRecords "2026-02", largeRecords "2026-03"] := by
    rw [Table.values, toList_largeTexts]
    exact .cons (recordsOf_large largeDate_first) (.cons (recordsOf_large largeDate_second)
      (.cons (recordsOf_large largeDate_third) .nil))
  exact allRecords_sourceBytes.mpr ⟨_, hsources, by rw [allLarge]⟩

/-- No two of the records share month and currency. -/
theorem nodup_large : (allLarge.map Prod.fst).Nodup := by
  have hkeys : ∀ month, (largeRecords month).map Prod.fst =
      (List.range 10000).map fun j => (month, code j) := fun month => by
    rw [largeRecords, List.map_map]
    exact List.map_congr_left fun j _ => by rw [Function.comp_apply]
  have hnodup : ∀ month : String, ((List.range 10000).map fun j => (month, code j)).Nodup := by
    intro month
    refine List.Nodup.map_on (fun i hi j hj h => ?_) List.nodup_range
    exact code_injective (List.mem_range.mp hi) (List.mem_range.mp hj) (congrArg Prod.snd h)
  have hmonth : ∀ {m m' : String} {k : Key}, m ≠ m' →
      k ∈ (List.range 10000).map (fun j => (m, code j)) →
        k ∉ (List.range 10000).map fun j => (m', code j) := by
    intro m m' k hne hk hk'
    obtain ⟨i, -, rfl⟩ := List.mem_map.mp hk
    obtain ⟨j, -, h⟩ := List.mem_map.mp hk'
    exact hne (congrArg Prod.fst h).symm
  rw [allLarge, List.flatten_cons, List.flatten_cons, List.flatten_cons, List.flatten_nil,
    List.append_nil, List.map_append, List.map_append, hkeys, hkeys, hkeys]
  refine (hnodup _).append ((hnodup _).append (hnodup _) fun k hk hk' => ?_) fun k hk hk' => ?_
  · exact hmonth (by decide) hk hk'
  · rcases List.mem_append.mp hk' with hk' | hk'
    · exact hmonth (by decide) hk hk'
    · exact hmonth (by decide) hk hk'

theorem length_allLarge : allLarge.length = 30000 := by
  have hlength : ∀ month, (largeRecords month).length = 10000 := fun month => by
    rw [largeRecords, List.length_map, List.length_range]
  rw [allLarge, List.flatten_cons, List.flatten_cons, List.flatten_cons, List.flatten_nil,
    List.append_nil, List.length_append, List.length_append, hlength, hlength, hlength]

/-- **A batch of thirty thousand groups is reported and not delivered.** -/
theorem large_batch_lost : largeBatch.length ≤ maxSource ∧ tokenValid largeLease = true ∧
    ∀ sha256 : Bytes → Bytes, (∀ bytes, (sha256 bytes).length = 32) →
      ∃ report, batchReport sha256 largeBatch = .ok report ∧
        ¬ Delivers sha256 largeBatch largeLease report := by
  have hvalid : tokenValid largeLease = true := by decide
  refine ⟨length_largeBatch, hvalid, fun sha256 hsha => ?_⟩
  have hrecords := allRecords_large
  obtain ⟨rs, _, groups, hrs, -, -, -, hreport⟩ | ⟨id, source, e, hid, herr, -⟩ :=
    batchReport_cases sha256 batchBytes_large
  · refine ⟨_, hreport, fun hdelivers => ?_⟩
    obtain ⟨rs', hinput, hiff⟩ := @delivers_width sha256 largeBatch _ largeLease .batch hsha hreport
      hvalid
    have hsame := inputRecords_batch (decodeAs_batch (Batch.mk 1 largeTexts))
    obtain rfl := Except.ok.inj ((hsame.trans hrecords).symm.trans hinput)
    have hwidth := le_reportWidth allLarge
    have hfits := hiff.mp hdelivers
    rw [nodup_large.dedup, List.length_map, length_allLarge] at hwidth
    rw [maxSource] at hfits
    omega
  · obtain ⟨own, hown⟩ := recordsOf_of_all hrecords hid
    obtain ⟨_, _, -, -, hr⟩ := @calculate_recordsOf sha256 source own hown
    rw [herr] at hr
    cases hr

end

end LumaOS.Calculation
