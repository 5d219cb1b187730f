import LumaOS.Json.Size
import LumaOS.Base.Interrupt

/-!
# Receipts of native artifacts

Model of `artifacts.rs:1-97`: the receipt that names a published report, its checks and its bytes.
`from_slice` is a parameter (`Outside.fromSlice`); a result that needs it to read a receipt back
says so for the receipts at hand (`Outside.Reads`).

`length_bytes_le`: a receipt that passes its checks fits the limit of its member.
-/

namespace LumaOS.Publication

open LumaOS.Base LumaOS.Text LumaOS.Json

/-- `MAX_CONTENT`. -/
def maxContent : Nat := 2 * 1024 * 1024

/-- `MAX_TOTAL`. -/
def maxTotal : Nat := 64 * 1024 * 1024

/-- `MAX_RECORDS`. -/
def maxRecords : Nat := 1024

/-- `FREE_FLOOR`. -/
def freeFloor : Nat := 16 * 1024 * 1024

/-- The limit of a `receipt.json` member. -/
def maxReceipt : Nat := 4096

/-- `resources::Token`, with the width its generation has in the source. -/
structure Token where
  leaseId : String
  generation : UInt64
  managerEpoch : String
deriving DecidableEq

/-- `artifacts::Receipt`. -/
structure Receipt where
  schemaVersion : UInt32
  installation : String
  requestId : String
  authenticatedUid : UInt32
  workflowSha256 : String
  sourceSha256 : String
  contentSha256 : String
  contentBytes : UInt64
  filename : String
  mediaType : String
  version : UInt32
  resourceLease : Option Token
deriving DecidableEq

/-- `artifacts::identifier`. -/
def identifier (value : String) : Bool :=
  !value.isEmpty && value.utf8ByteSize ≤ 64 &&
    value.toList.all fun c => c.isAlphanum || c == '-'

/-- A nonce of `workflow_resource::token_valid`. -/
def nonce (value : String) : Bool := value.utf8ByteSize == 32 && value.toList.all lowerHex

/-- `workflow_resource::token_valid`. -/
def tokenValid (token : Token) : Bool :=
  token.generation > 0 && nonce token.leaseId && nonce token.managerEpoch

/-- `Token`'s serialisation; the generation is a decimal string. -/
def Token.toJson (t : Token) : Value :=
  .object [("lease_id", .string t.leaseId), ("generation", decimal t.generation.toNat),
    ("manager_epoch", .string t.managerEpoch)]

namespace Receipt

/-- `Receipt`'s serialisation, in declaration order. -/
def toJson (r : Receipt) : Value :=
  .object ([("schema_version", u32Json r.schemaVersion), ("installation", .string r.installation),
    ("request_id", .string r.requestId), ("authenticated_uid", u32Json r.authenticatedUid),
    ("workflow_sha256", .string r.workflowSha256), ("source_sha256", .string r.sourceSha256),
    ("content_sha256", .string r.contentSha256), ("content_bytes", u64Json r.contentBytes),
    ("filename", .string r.filename), ("media_type", .string r.mediaType),
    ("version", u32Json r.version)] ++ skipNone "resource_lease" Token.toJson r.resourceLease)

/-- `serde_json::to_vec` of a receipt. -/
def bytes (r : Receipt) : Bytes := toVec r.toJson

/-- `Receipt::stored_bytes`. -/
def storedBytes (r : Receipt) : Nat := r.contentBytes.toNat + r.bytes.length

/-- The condition `Receipt::validate` refuses. -/
def invalid (r : Receipt) (installation request : String) : Bool :=
  r.schemaVersion != 1 || r.installation != installation || !isHash installation ||
    r.requestId != request || !identifier request || r.authenticatedUid != 0 ||
    !isHash r.workflowSha256 || !isHash r.sourceSha256 || !isHash r.contentSha256 ||
    r.contentBytes == 0 || r.contentBytes.toNat > maxContent ||
    r.filename != "invoice-summary.json" || r.mediaType != "application/json" || r.version != 1 ||
    r.resourceLease.any fun t => !tokenValid t

/-- `Receipt::validate`. -/
def validate (r : Receipt) (installation request : String) : Result Unit :=
  refuseIf (r.invalid installation request) "invalid native artifact receipt"

end Receipt

/-- The libraries the store calls: SHA-256, and `serde_json::from_slice` at `Receipt`. -/
structure Outside where
  sha256 : Bytes → Vector UInt8 32
  fromSlice : Bytes → Result Receipt

/-- The receipt is read back from its own bytes. -/
def Outside.Reads (O : Outside) (r : Receipt) : Prop := O.fromSlice r.bytes = .ok r

/-- `artifacts::digest`. -/
def Outside.digest (O : Outside) (bytes : Bytes) : String := hex (O.sha256 bytes).toList

/-- `Receipt::review`. -/
def Receipt.review (O : Outside) (r : Receipt) : String := O.digest r.bytes

theorem isHash_digest (O : Outside) (bytes : Bytes) : isHash (O.digest bytes) = true :=
  isHash_hex (Vector.length_toList ..)

/-! ## The size of a receipt -/

theorem utf8ByteSize_toString_le {n k : Nat} (hk : 0 < k) (h : n < 10 ^ k) :
    (toString (n : Int)).utf8ByteSize ≤ k := by
  have hdigits : toString (n : Int) = String.ofList (Nat.toDigits 10 n) := by
    rw [← Nat.repr_eq_ofList_toDigits]
    rfl
  rw [hdigits, utf8ByteSize_ofList_ascii]
  · exact (Nat.length_toDigits_le_iff (by decide) hk).mpr h
  · intro c hc
    have hdigit := Nat.isDigit_of_mem_toDigits (by decide) (by decide) hc
    exact utf8Size_of_lowerHex (by simp [lowerHex, hdigit])

theorem fieldBounds_append (a b : List (String × Value)) :
    fieldBounds (a ++ b) = fieldBounds a + fieldBounds b := by
  induction a with
  | nil => simp [fieldBounds]
  | cons f a ih =>
    obtain ⟨k, v⟩ := f
    rw [List.cons_append, fieldBounds, fieldBounds, ih]
    omega

/-- What the checks of a receipt establish. -/
structure Receipt.Valid (r : Receipt) (installation request : String) : Prop where
  schemaVersion : r.schemaVersion = 1
  installation : r.installation = installation
  requestId : r.requestId = request
  identifier : identifier request = true
  authenticatedUid : r.authenticatedUid = 0
  hashes : isHash r.installation = true ∧ isHash r.workflowSha256 = true ∧
    isHash r.sourceSha256 = true ∧ isHash r.contentSha256 = true
  contentBytes : 0 < r.contentBytes.toNat ∧ r.contentBytes.toNat ≤ maxContent
  filename : r.filename = "invoice-summary.json"
  mediaType : r.mediaType = "application/json"
  version : r.version = 1
  resourceLease : ∀ t, r.resourceLease = some t → tokenValid t = true

theorem validate_eq_ok {r : Receipt} {installation request : String} {u : Unit}
    (h : r.validate installation request = .ok u) : r.Valid installation request := by
  rw [Receipt.validate, refuseIf_eq_ok] at h
  simp only [Receipt.invalid, Bool.or_eq_false_iff, bne_eq_false_iff_eq, Bool.not_eq_false',
    beq_eq_false_iff_ne, decide_eq_false_iff_not, Nat.not_lt] at h
  obtain ⟨⟨⟨⟨⟨⟨⟨⟨⟨⟨⟨⟨⟨⟨hversion, hinst⟩, hih⟩, hreq⟩, hid⟩, huid⟩, hw⟩, hs⟩, hc⟩, hzero⟩, hmax⟩,
    hfile⟩, hmedia⟩, hv⟩, hlease⟩ := h
  refine ⟨hversion, hinst, hreq, hid, huid, ⟨hinst ▸ hih, hw, hs, hc⟩, ⟨?_, hmax⟩, hfile, hmedia,
    hv, fun t ht => ?_⟩
  · exact Nat.pos_of_ne_zero fun h0 => hzero (UInt64.toNat_inj.mp h0)
  · simpa [ht] using hlease

theorem quoteBound_hash {s : String} (h : isHash s = true) : quoteBound s = 386 := by
  simp only [isHash, Bool.and_eq_true, beq_iff_eq] at h
  rw [quoteBound, h.1]

theorem quoteBound_nonce {s : String} (h : nonce s = true) : quoteBound s = 194 := by
  simp only [nonce, Bool.and_eq_true, beq_iff_eq] at h
  rw [quoteBound, h.1]

theorem quoteBound_identifier {s : String} (h : identifier s = true) : quoteBound s ≤ 386 := by
  simp only [identifier, Bool.and_eq_true, decide_eq_true_eq] at h
  have := h.1.2
  rw [quoteBound]
  omega

theorem sizeBound_token {t : Token} (h : tokenValid t = true) : sizeBound t.toJson ≤ 720 := by
  simp only [tokenValid, Bool.and_eq_true] at h
  have hgeneration : (toString t.generation.toNat).utf8ByteSize ≤ 20 :=
    utf8ByteSize_toString_le (by decide)
      (t.generation.toNat_lt.trans (by decide))
  simp only [Token.toJson, sizeBound, fieldBounds, decimal, quoteBound_nonce h.1.2,
    quoteBound_nonce h.2]
  have h1 : quoteBound "lease_id" = 50 := rfl
  have h2 : quoteBound "generation" = 62 := rfl
  have h3 : quoteBound "manager_epoch" = 80 := rfl
  rw [h1, h2, h3, quoteBound]
  omega

/-- **A valid receipt fits its member.** -/
theorem Receipt.Valid.length_bytes_le {r : Receipt} {installation request : String}
    (h : r.Valid installation request) : r.bytes.length ≤ maxReceipt := by
  refine (length_toVec_le _).trans ?_
  have hlease : fieldBounds (skipNone "resource_lease" Token.toJson r.resourceLease) ≤ 808 := by
    cases ht : r.resourceLease with
    | none => simp [skipNone, fieldBounds]
    | some t =>
      have := sizeBound_token (h.resourceLease t ht)
      simp only [skipNone, fieldBounds, quoteBound]
      have : "resource_lease".utf8ByteSize = 14 := rfl
      omega
  have hcontent : (toString (r.contentBytes.toNat : Int)).utf8ByteSize ≤ 7 :=
    utf8ByteSize_toString_le (by decide) (h.contentBytes.2.trans_lt (by decide))
  have hrequest := quoteBound_identifier (h.requestId ▸ h.identifier)
  simp only [Receipt.toJson, sizeBound, fieldBounds_append, fieldBounds, u32Json, u64Json,
    h.schemaVersion, h.authenticatedUid, h.version, h.filename, h.mediaType,
    quoteBound_hash h.hashes.1, quoteBound_hash h.hashes.2.1, quoteBound_hash h.hashes.2.2.1,
    quoteBound_hash h.hashes.2.2.2]
  have hkeys : quoteBound "schema_version" + quoteBound "installation" + quoteBound "request_id" +
      quoteBound "authenticated_uid" + quoteBound "workflow_sha256" + quoteBound "source_sha256" +
      quoteBound "content_sha256" + quoteBound "content_bytes" + quoteBound "filename" +
      quoteBound "media_type" + quoteBound "version" = 820 := rfl
  have hvalues : quoteBound "invoice-summary.json" + quoteBound "application/json" = 220 := rfl
  have hzero : (toString ((0 : UInt32).toNat : Int)).utf8ByteSize = 1 := rfl
  have hone : (toString ((1 : UInt32).toNat : Int)).utf8ByteSize = 1 := rfl
  unfold maxReceipt
  omega

end LumaOS.Publication
