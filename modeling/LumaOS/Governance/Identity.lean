import LumaOS.Base.Word
import LumaOS.Base.Loop
import LumaOS.Base.Table
import LumaOS.Json

/-!
# Principals, the registry and the recovery verifier

Model of the installation's principal registry (`principal.rs:19-165`), of the offline recovery
verifier (`admin_recovery.rs:119-228`) and of the identifiers the Admin catalog uses
(`admin_roles.rs:16-23`). Files, PAM and credentials are outside: a verifier here is the public
commitment the catalog stores and compares.

A registry is validated as a whole, so identities are unique in it (`Registry.nodup_ids`).
Appending an account keeps what `principal` finds and adds only the new record
(`Registry.appendAccount_cases`).
-/

namespace LumaOS.Governance

open LumaOS.Base LumaOS.Text LumaOS.Json

/-- `admin_roles::identifier`. -/
def identifier (value : String) : Bool :=
  value.utf8ByteSize ≤ 64 &&
    match value.toList with
    | [] => false
    | c :: rest => c.isAlpha &&
        (c :: rest).all fun c => c.isAlphanum || c == '-' || c == '_' || c == '.'

/-- `tpm::decode::<N>(value)? == [0; N]`. -/
def emptyDigest (n : Nat) (value : String) : Result Bool := do
  let bytes ← decode n value
  pure (bytes == zeros n)

instance noPanic_emptyDigest (n : Nat) (value : String) : NoPanic (emptyDigest n value) := by
  unfold emptyDigest
  infer_instance

/-! ## The recovery verifier -/

structure Verifier where
  schemaVersion : Nat
  installation : String
  principal : String
  uid : Nat
  generation : UInt64
  salt : String
  commitmentSha256 : String
deriving DecidableEq, Repr

/-- `Verifier::validate`. -/
def Verifier.validate (v : Verifier) (installation principal : String) : Result Unit := do
  [v.installation, v.principal, v.salt, v.commitmentSha256].forM fun value => do
    let _ ← decode 32 value
    pure ()
  refuseIf (v.schemaVersion != 1 || v.uid != 1001 || v.generation == 0 ||
      v.installation == v.principal || v.installation != installation ||
      v.principal != principal)
    "recovery verifier does not bind the original installation Admin"

instance Verifier.noPanic_validate (v : Verifier) (installation principal : String) :
    NoPanic (v.validate installation principal) := by
  unfold Verifier.validate
  infer_instance

/-- `Verifier::successor`. -/
def Verifier.successor (v replacement : Verifier) : Result Unit := do
  replacement.validate v.installation v.principal
  let next ← okOr (u64Add v.generation 1) "recovery credential generation exhausted"
  refuseIf (replacement.generation != next || replacement.salt == v.salt ||
      replacement.commitmentSha256 == v.commitmentSha256)
    "recovery requires a fresh next-generation verifier"

instance Verifier.noPanic_successor (v replacement : Verifier) :
    NoPanic (v.successor replacement) := by
  unfold Verifier.successor
  infer_instance

/-! ## The registry -/

structure Principal where
  id : String
  generation : UInt64
  login : String
  uid : Nat
  enabled : Bool
deriving DecidableEq, Repr

structure Registry where
  schemaVersion : Nat
  installation : String
  principals : List Principal
  adminRecovery : Option Verifier
deriving DecidableEq, Repr

/-- `principal::login`. -/
def login (value : String) : Bool :=
  value.utf8ByteSize ≤ 32 &&
    match value.toList with
    | [] => false
    | c :: rest => c.isLower &&
        (c :: rest).all fun c => c.isLower || c.isDigit || c == '_' || c == '-'

def Verifier.toJson (v : Verifier) : Value :=
  .object [("schema_version", .number v.schemaVersion), ("installation", .string v.installation),
    ("principal", .string v.principal), ("uid", .number v.uid),
    ("generation", .number v.generation.toNat), ("salt", .string v.salt),
    ("commitment_sha256", .string v.commitmentSha256)]

def Principal.toJson (p : Principal) : Value :=
  .object [("id", .string p.id), ("generation", .number p.generation.toNat),
    ("login", .string p.login), ("uid", .number p.uid), ("enabled", .bool p.enabled)]

namespace Registry

/-- `Registry::bootstrap_admin`. -/
def bootstrapAdmin (r : Registry) : Option Principal := r.principals.find? fun p => p.uid == 1001

/-- `Registry::principal`. -/
def principal (r : Registry) (id : String) : Option Principal :=
  r.principals.find? fun p => p.id == id

/-- One record of the loop of `validate`; the accumulator is the records before it, whose
identities, logins and uids the source keeps in three sets. -/
def principalStep (r : Registry) (seen : List Principal) (p : Principal) :
    Result (List Principal) := do
  let _ ← decode 32 p.id
  refuseIf (!login p.login || !(1000 ≤ p.uid && p.uid < 65534) || p.generation == 0 ||
      p.id == r.installation || seen.any (fun q => q.id == p.id) ||
      seen.any (fun q => q.login == p.login) || seen.any (fun q => q.uid == p.uid))
    "invalid or duplicate local principal"
  pure (seen ++ [p])

/-- The recovery verifier an installer enrolled belongs to the enabled original Admin. -/
def recoveryValid (r : Registry) : Result Unit :=
  match r.adminRecovery with
  | none => .ok ()
  | some verifier => do
    let admin ← okOr (r.bootstrapAdmin.filter fun p => p.enabled)
      "recovery verifier requires an enabled original Admin"
    verifier.validate r.installation admin.id
    refuseIf (verifier.generation != 1) "installer recovery verifier must start at generation one"

instance noPanic_recoveryValid (r : Registry) : NoPanic r.recoveryValid := by
  unfold recoveryValid
  split
  · infer_instance
  · infer_instance

/-- `principal::validate`. -/
def validate (r : Registry) : Result Unit := do
  let _ ← decode 32 r.installation
  refuseIf (r.schemaVersion != 1 || r.principals.isEmpty || r.principals.length > 128)
    "invalid local principal registry"
  let _ ← r.principals.foldlM r.principalStep []
  r.recoveryValid

instance noPanic_validate (r : Registry) : NoPanic r.validate := by
  unfold validate principalStep
  infer_instance

def toJson (r : Registry) : Value :=
  .object ([("schema_version", .number r.schemaVersion), ("installation", .string r.installation),
    ("principals", .array (r.principals.map Principal.toJson))] ++
    (r.adminRecovery.map fun v => ("admin_recovery", v.toJson)).toList)

/-- `Registry::append_account`. -/
def appendAccount (r : Registry) (record : Principal) : Result Registry := do
  refuseIf (record.generation != 1 || !record.enabled || record.uid == 1001)
    "new accounts require a fresh enabled installation identity at generation one"
  let empty ← emptyDigest 32 record.id
  refuseIf empty "new accounts require a fresh enabled installation identity at generation one"
  let next := { r with principals := r.principals ++ [record] }
  next.validate
  refuseIf ((toVec next.toJson).length > 64 * 1024) "principal registry capacity exhausted"
  pure next

instance noPanic_appendAccount (r : Registry) (record : Principal) :
    NoPanic (r.appendAccount record) := by
  unfold appendAccount
  infer_instance

/-! ## Appending -/

/-- No two records of a registry share their identity. -/
theorem nodup_ids {r : Registry} (h : r.validate = .ok ()) : (r.principals.map (·.id)).Nodup := by
  simp only [validate, bind_eq_ok] at h
  obtain ⟨_, -, _, -, seen, hloop, -⟩ := h
  have hstep : ∀ past p s, r.principalStep past p = .ok s →
      (True ∧ ∀ q ∈ past, q.id ≠ p.id) ∧ s = past ++ [p] := by
    intro past p s hs
    simp only [principalStep, bind_eq_ok, refuseIf_eq_ok, Bool.or_eq_false_iff, pure_eq_ok] at hs
    obtain ⟨_, -, _, ⟨⟨⟨-, hid⟩, -⟩, -⟩, rfl⟩ := hs
    simp only [List.any_eq_false, beq_iff_eq] at hid
    exact ⟨⟨trivial, hid⟩, rfl⟩
  rw [List.Nodup, List.pairwise_map]
  exact (pairwise_of_foldlM (S := id) hstep r.principals [] seen .nil hloop).2.1

theorem principal_id {r : Registry} {id : String} {p : Principal} (h : r.principal id = some p) :
    p.id = id := by
  simpa using List.find?_some h

/-- In a registry without repeated identities, `principal` finds every record. -/
theorem principal_of_mem {r : Registry} (h : (r.principals.map (·.id)).Nodup) {p : Principal}
    (hp : p ∈ r.principals) : r.principal p.id = some p := by
  have hsome : (r.principal p.id).isSome := by
    rw [principal, List.find?_isSome]
    exact ⟨p, hp, by simp⟩
  obtain ⟨q, hq⟩ := Option.isSome_iff_exists.mp hsome
  rw [hq, List.inj_on_of_nodup_map h (List.mem_of_find?_eq_some hq) hp (principal_id hq)]

/-- What an appended account is, and what the new registry finds. -/
theorem appendAccount_cases {r next : Registry} {record : Principal}
    (h : r.appendAccount record = .ok next) :
    record.generation = 1 ∧ record.uid ≠ 1001 ∧ next.validate = .ok () ∧
      next.principals = r.principals ++ [record] ∧ r.principal record.id = none ∧
      next.principal record.id = some record ∧
      ∀ id p, r.principal id = some p → next.principal id = some p := by
  simp only [appendAccount, bind_eq_ok, refuseIf_eq_ok, Bool.or_eq_false_iff, bne_eq_false_iff_eq,
    beq_eq_false_iff_ne, pure_eq_ok] at h
  obtain ⟨_, ⟨⟨hgen, -⟩, huid⟩, _, -, _, -, _, hvalid, _, -, rfl⟩ := h
  have hnd := nodup_ids hvalid
  refine ⟨hgen, huid, hvalid, rfl, ?_, principal_of_mem hnd (by simp), fun id p hp => ?_⟩
  · rw [principal, List.find?_eq_none]
    intro q hq
    simp only [List.map_append, List.map_cons, List.map_nil, List.nodup_append] at hnd
    simpa using hnd.2.2 q.id (List.mem_map_of_mem hq) record.id (by simp)
  · have hp' : r.principals.find? (fun q => q.id == id) = some p := hp
    rw [principal, List.find?_append, hp']
    rfl

end Registry

end LumaOS.Governance
