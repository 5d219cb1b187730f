import LumaOS.Json.Decode

/-!
# The configuration of the model worker

Three files select the local model: `model-selection.json`, the reference service's environment and
the runtime key (`model.rs:40-85`, `:1502-1547`). An activation copies the three before it replaces
them, and `prior_restore_profile` (`model.rs:1897-1933`) says which saved configurations may be
written back: none at all, or exactly what one profile of the catalog publishes, with a private key.

* `priorRestoreProfile_some`: a configuration is restorable for `p` iff it is `p`'s own selection
  and environment with a token for a key.

Outside: `Outside` stands for the image's catalog, the Admin's current authority, the weights on
disk and SHA-256. File ownership and modes of the three files are left out: every write sets them,
and no check between two writes tells the intermediate ones apart.
-/

namespace LumaOS.Models

open LumaOS.Base LumaOS.Text LumaOS.Json

/-! ## Profiles -/

/-- `NativeBinding` (`model.rs:42-65`). -/
structure NativeBinding where
  catalogSha256 : String
  profileSha256 : String
  manifestSha256 : String
  runtimeTupleSha256 : String
deriving DecidableEq

def NativeBinding.validate (b : NativeBinding) : Result Unit :=
  refuseIf ([b.catalogSha256, b.profileSha256, b.manifestSha256, b.runtimeTupleSha256].any
    fun value => !isHash value) "invalid exact governed native model tuple binding"

/-- The binding inside a `json!` object, whose keys are sorted. -/
def NativeBinding.toJson (b : NativeBinding) : Value :=
  .object [("catalog_sha256", .string b.catalogSha256),
    ("manifest_sha256", .string b.manifestSha256),
    ("profile_sha256", .string b.profileSha256),
    ("runtime_tuple_sha256", .string b.runtimeTupleSha256)]

def NativeBinding.ofJson (v : Value) : Option NativeBinding := do
  let catalogSha256 ← (v.get "catalog_sha256").asStr
  let profileSha256 ← (v.get "profile_sha256").asStr
  let manifestSha256 ← (v.get "manifest_sha256").asStr
  let runtimeTupleSha256 ← (v.get "runtime_tuple_sha256").asStr
  pure ⟨catalogSha256, profileSha256, manifestSha256, runtimeTupleSha256⟩

/-- `Profile` (`model.rs:67-85`): what the activation reads of it. -/
structure Profile where
  id : String
  sha256 : String
  governed : Option NativeBinding
deriving DecidableEq

/-- What the code depends on and does not change. -/
structure Outside where
  /-- `Sha256::digest`. -/
  sha256 : Bytes → Bytes
  /-- `catalog()?.models`. -/
  catalog : List Profile
  /-- `public_catalog_binding()`. -/
  catalogBinding : String
  /-- `admin_governance::current_model_authority`. -/
  authority : Profile → Result Unit
  /-- `verify_file` on the profile's weights. -/
  weights : Profile → Result Unit

variable (O : Outside)

/-- `public_profile` (`model.rs:237-243`). -/
def Outside.publicProfile (id : String) : Result Profile :=
  okOr (O.catalog.find? fun p => p.id == id)
    "model is not in this signed image's exact supported catalog"

/-- `profile` (`model.rs:245-249`). -/
def Outside.profile (id : String) : Result Profile := do
  let p ← O.publicProfile id
  O.authority p
  pure p

/-- `bundle::hex(&Sha256::digest(..))`. -/
def Outside.digest (bytes : Bytes) : String := hex (O.sha256 bytes)

/-- The UTF-8 of a text. -/
def utf8 (s : String) : Bytes := bytesOf s.toList

/-- `broker_selection` (`model.rs:1512-1525`). A `json!` object's keys are sorted. -/
def brokerSelection (p : Profile) : Result Bytes :=
  match p.governed with
  | some binding => do
    binding.validate
    pure (toVec (.object [("binding", binding.toJson), ("id", .string p.id),
      ("schema_version", .number 3)]))
  | none => pure (toVec (.object [("id", .string p.id), ("schema_version", .number 2)]))

/-- `reference_environment` (`model.rs:1527-1533`). -/
def referenceEnvironment (p : Profile) : Bytes :=
  utf8 ("LUMA_MODEL_TRANSPORT=native-broker\nLUMA_MODEL_NAME=" ++ p.id ++ "\n")

/-- `token.len() == 64` and every byte a hexadecimal digit. Such bytes are ASCII, so the
`str::from_utf8` in front of the check refuses nothing more. -/
def isToken (key : Bytes) : Bool :=
  key.length == 64 && key.all fun b => asciiHexdigit (Char.ofNat b.toNat)

/-! ## The three files -/

/-- `model-selection.json`, `model-reference.env` and `model-auth/api-key`. -/
structure Configuration where
  selection : Option Bytes
  environment : Option Bytes
  key : Option Bytes
deriving DecidableEq

/-- `checked_activation_bytes` (`model.rs:1453-1500`): a file no longer than `max`. -/
def boundedFile (max : Nat) (file : Option Bytes) : Result (Option Bytes) := do
  refuseIf (file.any fun bytes => decide (max < bytes.length))
    "unsafe model activation file; preserve state"
  pure file

/-- `activation_snapshot` (`model.rs:1539-1547`). -/
def activationSnapshot (c : Configuration) : Result Configuration := do
  let selection ← boundedFile 4096 c.selection
  let environment ← boundedFile 4096 c.environment
  let key ← boundedFile 64 c.key
  pure ⟨selection, environment, key⟩

/-- `activation_digest` (`model.rs:1506-1510`). -/
def activationDigest (file : Option Bytes) : Option String := file.map O.digest

/-- The digests of the three files. -/
structure Hashes where
  selection : Option String
  environment : Option String
  key : Option String
deriving DecidableEq

def Configuration.hashes (c : Configuration) : Hashes :=
  ⟨activationDigest O c.selection, activationDigest O c.environment, activationDigest O c.key⟩

/-- A tuple is written as an array. -/
def Hashes.toJson (h : Hashes) : Value :=
  .array [optional .string h.selection, optional .string h.environment, optional .string h.key]

def Hashes.ofJson : Value → Option Hashes
  | .array [selection, environment, key] => do
    let selection ← selection.asOptional Value.asStr
    let environment ← environment.asOptional Value.asStr
    let key ← key.asOptional Value.asStr
    pure ⟨selection, environment, key⟩
  | _ => none

/-- `Selection` (`model.rs:1903-1910`). -/
structure Selection where
  schemaVersion : UInt32
  id : String
  binding : Option NativeBinding
deriving DecidableEq

def Selection.ofJson (v : Value) : Option Selection := do
  let schemaVersion ← (v.get "schema_version").asU32
  let id ← (v.get "id").asStr
  let binding ← (v.get "binding").asOptional NativeBinding.ofJson
  pure ⟨schemaVersion, id, binding⟩

/-- The match on the schema in `prior_restore_profile` (`model.rs:1915-1919`). -/
def checkSchema (prior : Profile) (selected : Selection) : Result Unit :=
  match prior.governed, selected.schemaVersion, selected.binding with
  | some expected, 3, some binding =>
    if expected = binding then binding.validate
    else refuse "saved prior model schema or exact catalog/pack/runtime binding changed; preserve state"
  | none, 2, none => pure ()
  | _, _, _ =>
    refuse "saved prior model schema or exact catalog/pack/runtime binding changed; preserve state"

/-- `prior_restore_profile` (`model.rs:1897-1933`). -/
def priorRestoreProfile (c : Configuration) (resolve : String → Result Profile) :
    Result (Option Profile) :=
  match c.selection, c.environment, c.key with
  | none, none, none => pure none
  | some selection, some env, some key => do
    let selected ← okOr (decodeAs Selection.ofJson selection)
      "invalid saved prior model selection; preserve state"
    let prior ← resolve selected.id
    checkSchema prior selected
    let expected ← brokerSelection prior
    refuseIf (prior.id != selected.id || selection != expected || !isToken key ||
        env != referenceEnvironment prior)
      "prior model configuration is not consistent; preserve state"
    pure (some prior)
  | _, _, _ => refuse "mixed or legacy prior configuration cannot be restored by this path"

/-! ## Digests -/

/-- SHA-256 returns 32 bytes and tells apart the byte strings in `known`; the catalog passed
`legacy_catalog` (`model.rs:192-226`), and its binding is a digest. -/
structure Outside.Sound (O : Outside) (known : Set Bytes) : Prop where
  length : ∀ bytes, (O.sha256 bytes).length = 32
  apart : Set.InjOn O.sha256 known
  ids : ∀ p ∈ O.catalog, p.id.utf8ByteSize ≤ 64
  weights : ∀ p ∈ O.catalog, p.sha256.utf8ByteSize = 64
  binding : O.catalogBinding.utf8ByteSize = 64

variable {O : Outside} {known : Set Bytes}

theorem Outside.Sound.digest_inj (hO : O.Sound known) {a b : Bytes} (ha : a ∈ known)
    (hb : b ∈ known) (h : O.digest a = O.digest b) : a = b :=
  hO.apart ha hb (hex_injective h)

theorem Outside.Sound.decode_digest (hO : O.Sound known) (bytes : Bytes) :
    decode 32 (O.digest bytes) = .ok (O.sha256 bytes) :=
  decode_hex (hO.length bytes)

theorem Outside.mem_of_publicProfile {id : String} {p : Profile} (h : O.publicProfile id = .ok p) :
    p ∈ O.catalog ∧ p.id = id := by
  simp only [Outside.publicProfile, okOr_eq_ok] at h
  exact ⟨List.mem_of_find?_eq_some h, by simpa using List.find?_some h⟩

theorem Outside.profile_eq_ok {id : String} {p : Profile} :
    O.profile id = .ok p ↔ O.publicProfile id = .ok p ∧ O.authority p = .ok () := by
  simp only [Outside.profile, bind_eq_ok, pure_eq_ok]
  constructor
  · rintro ⟨_, hp, _, ha, rfl⟩
    exact ⟨hp, ha⟩
  · rintro ⟨hp, ha⟩
    exact ⟨p, hp, (), ha, rfl⟩

/-! ## Reading records back -/

@[simp] theorem NativeBinding.ofJson_toJson (b : NativeBinding) :
    NativeBinding.ofJson b.toJson = some b := rfl

theorem NativeBinding.depth_toJson (b : NativeBinding) : depth b.toJson = 1 := rfl

theorem Hashes.ofJson_toJson (h : Hashes) : Hashes.ofJson h.toJson = some h := by
  simp [Hashes.ofJson, Hashes.toJson]

/-- No file is longer than `activation_bytes` reads. -/
structure Configuration.Bounded (c : Configuration) : Prop where
  selection : ∀ v, c.selection = some v → v.length ≤ 4096
  environment : ∀ v, c.environment = some v → v.length ≤ 4096
  key : ∀ v, c.key = some v → v.length ≤ 64

theorem boundedFile_eq_ok {max : Nat} {file out : Option Bytes} :
    boundedFile max file = .ok out ↔ out = file ∧ ∀ v, file = some v → v.length ≤ max := by
  simp only [boundedFile, bind_eq_ok, refuseIf_eq_ok, pure_eq_ok]
  cases file with
  | none => simp [eq_comm]
  | some v => simp [eq_comm, and_comm]

theorem activationSnapshot_eq_ok {c out : Configuration} :
    activationSnapshot c = .ok out ↔ out = c ∧ c.Bounded := by
  simp only [activationSnapshot, bind_eq_ok, boundedFile_eq_ok, pure_eq_ok]
  constructor
  · rintro ⟨_, ⟨rfl, hs⟩, _, ⟨rfl, he⟩, _, ⟨rfl, hk⟩, rfl⟩
    exact ⟨rfl, hs, he, hk⟩
  · rintro ⟨rfl, hs, he, hk⟩
    exact ⟨_, ⟨rfl, hs⟩, _, ⟨rfl, he⟩, _, ⟨rfl, hk⟩, rfl⟩

/-! ## What a profile publishes -/

/-- The three files as one activation of `p` publishes them with the key `key`. -/
structure Configuration.Exact (c : Configuration) (p : Profile) (token : Bytes) : Prop where
  selection : ∃ selection, brokerSelection p = .ok selection ∧ c.selection = some selection
  environment : c.environment = some (referenceEnvironment p)
  key : c.key = some token
  isToken : isToken token = true

/-- What a version-2 or version-3 selection says. -/
theorem brokerSelection_read {p : Profile} {selection : Bytes} (h : brokerSelection p = .ok selection) :
    ∃ selected, decodeAs Selection.ofJson selection = some selected ∧ selected.id = p.id ∧
      checkSchema p selected = .ok () := by
  unfold brokerSelection at h
  cases hg : p.governed with
  | none =>
    rw [hg] at h
    cases h
    refine ⟨⟨2, p.id, none⟩, ?_, rfl, ?_⟩
    · rw [decodeAs_toVec (by simp [depth, fieldDepths, maxDepth])]
      rfl
    · simp only [checkSchema, hg]
      rfl
  | some binding =>
    simp only [hg, bind_eq_ok] at h
    obtain ⟨_, hvalid, h⟩ := h
    cases h
    refine ⟨⟨3, p.id, some binding⟩, ?_, rfl, ?_⟩
    · rw [decodeAs_toVec (by simp [depth, fieldDepths, maxDepth, NativeBinding.depth_toJson])]
      rfl
    · simp only [checkSchema, hg, if_true]
      exact hvalid

/-- **A saved configuration is restorable for `p` iff `p` publishes it.** -/
theorem priorRestoreProfile_some {c : Configuration} {resolve : String → Result Profile}
    {p : Profile} : priorRestoreProfile c resolve = .ok (some p) ↔
      (∃ key, c.Exact p key) ∧ resolve p.id = .ok p := by
  obtain ⟨selection, environment, key⟩ := c
  constructor
  · intro h
    unfold priorRestoreProfile at h
    split at h
    · cases h
    · rename_i s e k hs he hk
      simp only [bind_eq_ok, okOr_eq_ok, refuseIf_eq_ok, pure_eq_ok, Bool.or_eq_false_iff,
        bne_eq_false_iff_eq, Bool.not_eq_false', Option.some.injEq] at h
      obtain ⟨selected, -, prior, hresolve, -, -, expected, hexpected, _,
        ⟨⟨⟨hid, rfl⟩, htoken⟩, rfl⟩, rfl⟩ := h
      rw [← hid] at hresolve
      exact ⟨⟨k, ⟨_, hexpected, hs⟩, he, hk, htoken⟩, hresolve⟩
    · cases h
  · rintro ⟨⟨token, ⟨s, hbroker, rfl⟩, rfl, rfl, htoken⟩, hresolve⟩
    obtain ⟨selected, hread, hid, hschema⟩ := brokerSelection_read hbroker
    simp only [priorRestoreProfile, hread, okOr, bind_eq_ok, refuseIf_eq_ok, pure_eq_ok,
      Bool.or_eq_false_iff, bne_eq_false_iff_eq, Bool.not_eq_false']
    exact ⟨selected, rfl, p, by rw [hid, hresolve], (), hschema, s, hbroker, (),
      ⟨⟨⟨hid.symm, rfl⟩, htoken⟩, rfl⟩, rfl⟩

end LumaOS.Models
