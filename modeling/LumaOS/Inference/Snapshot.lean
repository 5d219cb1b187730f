import LumaOS.Inference.Journal
import LumaOS.Resources.Codec

/-!
# Reading the journal back

Model of `decode` (`requests/journal.rs:307-333`) and of the `Deserialize` half of the records it
reads. The pin of a record is no field of the journal (`#[serde(skip)]`), so a record is read back
without one.

* `Snapshot.ofJson_toJson`: a snapshot of machine words reads back as itself, up to the pins.
-/

namespace LumaOS.Governance

open LumaOS.Base LumaOS.Text LumaOS.Json

/-! ## Attributions -/

def Action.ofJson : Value → Option Action
  | .string "file.read" => some .read
  | .string "calculation.execute" => some .calculate
  | .string "artifact.write" => some .write
  | .string "workflow.execute" => some .execute
  | .string "workflow.cancel" => some .cancel
  | .string "workflow.resume" => some .resume
  | .string "resource.retention" => some .retain
  | .string "artifact.export" => some .export
  | .string "artifact.delete" => some .delete
  | .string "inference.execute" => some .infer
  | .string "worker.start" => some .startWorker
  | .string "worker.stop" => some .stopWorker
  | .string "resource.acquire" => some .acquireResource
  | .string "resource.provision" => some .provisionResource
  | .string "resource.recover" => some .recoverResource
  | .string "generated.execute" => some .executeGenerated
  | .string "model.qa" => some .qualifyModel
  | _ => none

def SelectorKind.ofJson : Value → Option SelectorKind
  | .string "file" => some .file
  | .string "calculation" => some .calculation
  | .string "artifact" => some .artifact
  | .string "workflow" => some .workflow
  | .string "model" => some .model
  | .string "worker" => some .worker
  | .string "resource" => some .resource
  | .string "generated_code" => some .generatedCode
  | .string "model_qa" => some .modelQa
  | _ => none

def Selector.ofJson (v : Value) : Option Selector := do
  let kind ← SelectorKind.ofJson (v.get "kind")
  let id ← (v.get "id").asStr
  let generation ← (v.get "generation").asU64
  let digest ← (v.get "digest").asStr
  pure { kind, id, generation, digest }

def Use.ofJson (v : Value) : Option Use := do
  let action ← Action.ofJson (v.get "action")
  let selector ← Selector.ofJson (v.get "selector")
  let inputBytes ← (v.get "input_bytes").asU64
  let outputBytes ← (v.get "output_bytes").asU64
  let units ← (v.get "units").asU64
  pure { action, selector, inputBytes, outputBytes, units }

def Audit.ofJson (v : Value) : Option Audit := do
  let subject ← (v.get "subject").asStr
  let subjectGeneration ← (v.get "subject_generation").asU64
  let grantId ← (v.get "grant_id").asStr
  let grantVersion ← (v.get "grant_version").asU64
  let checkpointHead ← (v.get "checkpoint_head").asStr
  let operationId ← v.getOr "operation_id" (fun w => w.asOptional Value.asStr) none
  let usage ← Use.ofJson (v.get "usage")
  pure { subject, subjectGeneration, grantId, grantVersion, checkpointHead, operationId, usage }

@[simp] theorem Action.ofJson_toJson (a : Action) : Action.ofJson a.toJson = some a := by
  cases a <;> rfl

@[simp] theorem SelectorKind.ofJson_toJson (k : SelectorKind) :
    SelectorKind.ofJson k.toJson = some k := by
  cases k <;> rfl

@[simp] theorem Selector.ofJson_toJson (s : Selector) : Selector.ofJson s.toJson = some s := by
  simp [Selector.ofJson, Selector.toJson, Value.get]

@[simp] theorem Use.ofJson_toJson (u : Use) : Use.ofJson u.toJson = some u := by
  simp [Use.ofJson, Use.toJson, Value.get]

@[simp] theorem Audit.ofJson_toJson (a : Audit) : Audit.ofJson a.toJson = some a := by
  obtain ⟨subject, subjectGeneration, grantId, grantVersion, head, operation, usage⟩ := a
  -- the field that may be left out
  cases operation <;>
    simp [Audit.ofJson, Audit.toJson, Value.get, Value.getOr, Value.asOptional, skipNone]

end LumaOS.Governance

namespace LumaOS.Inference

open LumaOS.Base LumaOS.Text LumaOS.Json LumaOS.Governance
open LumaOS.Resources (Token)

/-! ## Records -/

/-- A `u64` with `resources::decimal`. -/
def u64OfDecimal (v : Value) : Option UInt64 := v.asDecimal.map UInt64.ofNat

def Caller.ofJson (v : Value) : Option Caller := do
  let pid ← (v.get "pid").asU32
  let start ← u64OfDecimal (v.get "start")
  let boot ← (v.get "boot").asStr
  let uid ← v.getOr "uid" Value.asU32 0
  pure { pid, start, boot, uid }

def Phase.ofJson : Value → Option Phase
  | .string "preparing" => some .preparing
  | .string "admitted" => some .admitted
  | .string "completed" => some .completed
  | .string "draining" => some .draining
  | .string "released" => some .released
  | _ => none

def Record.ofJson (v : Value) : Option Record := do
  let caller ← Caller.ofJson (v.get "caller")
  let nonce ← (v.get "nonce").asStr
  let worker ← Token.ofJson (v.get "worker")
  let profile ← (v.get "profile").asStr
  let limit ← u64OfDecimal (v.get "limit")
  let context ← u64OfDecimal (v.get "context")
  let untilMs ← u64OfDecimal (v.get "until")
  let phase ← Phase.ofJson (v.get "phase")
  let prompt ← (v.get "prompt").asOptional u64OfDecimal
  let tokenDigest ← (v.get "token_digest").asOptional Value.asStr
  let output ← (v.get "output").asOptional u64OfDecimal
  let resultDigest ← (v.get "result_digest").asOptional Value.asStr
  let inputDigest ← v.getOr "input_digest" (fun w => w.asOptional Value.asStr) none
  let product ← v.getOr "product" (fun w => w.asOptional Audit.ofJson) none
  pure { caller, pin := none, nonce, worker, profile, limit, context, untilMs, phase, prompt,
         tokenDigest, output, resultDigest, inputDigest, product }

def Archive.ofJson (v : Value) : Option Archive := do
  let batch ← u64OfDecimal (v.get "batch")
  let sha256 ← (v.get "sha256").asStr
  pure { batch, sha256 }

def Origin.ofJson (v : Value) : Option Origin :=
  match (v.get "kind").asStr with
  | some "fresh-resource-state" => some .freshResourceState
  | some "reviewed-legacy-migration" => do
    let ledgerReview ← (v.get "ledger_review").asStr
    let managerEpoch ← (v.get "manager_epoch").asStr
    let generation ← u64OfDecimal (v.get "generation")
    pure (.reviewedLegacyMigration ledgerReview managerEpoch generation)
  | _ => none

/-- `journal::Snapshot`. -/
structure Snapshot where
  schemaVersion : UInt32
  origin : Origin
  archives : List Archive
  records : List Record

def Snapshot.toJson (s : Snapshot) : Value :=
  .object [("schema_version", u32Json s.schemaVersion), ("origin", s.origin.toJson),
    ("archives", .array (s.archives.map Archive.toJson)),
    ("records", .array (s.records.map Record.toJson))]

def Snapshot.ofJson (v : Value) : Option Snapshot := do
  let schemaVersion ← (v.get "schema_version").asU32
  let origin ← Origin.ofJson (v.get "origin")
  let archives ← (v.get "archives").asItems Archive.ofJson
  let records ← (v.get "records").asItems Record.ofJson
  pure { schemaVersion, origin, archives, records }

/-! ## Decoding -/

/-- The check of `decode` on where the journal comes from. -/
def Origin.wellFormed : Origin → Bool
  | .freshResourceState => true
  | .reviewedLegacyMigration ledgerReview managerEpoch generation =>
    digestValid ledgerReview && (nonceValid managerEpoch || managerEpoch.isEmpty && generation == 0)

/-- The check of `decode` on the archives: batches `1, 2, …`. -/
def chained (archives : List Archive) : Bool :=
  archives.zipIdx.all fun a => a.1.batch == UInt64.ofNat a.2 + 1 && digestValid a.1.sha256

/-- `journal::decode`. -/
def decode (bytes : Bytes) : Result Snapshot := do
  let snapshot ← okOr (decodeAs Snapshot.ofJson bytes) "invalid inference journal"
  refuseIf (snapshot.schemaVersion != 1 || toVec snapshot.toJson != bytes ||
      decide (snapshot.archives.length > maxArchives))
    "noncanonical or unsupported inference journal; preserve state"
  refuseIf (!snapshot.origin.wellFormed) "invalid request journal migration provenance"
  refuseIf (!chained snapshot.archives) "invalid request archive chain"
  let _ ← validateRecords snapshot.records
  pure snapshot

/-! ## What is written is read back -/

@[simp] theorem u64OfDecimal_u64Decimal (n : UInt64) : u64OfDecimal (u64Decimal n) = some n := by
  rw [u64OfDecimal, u64Decimal, asDecimal_decimal n.toNat_lt, Option.map_some, UInt64.ofNat_toNat]

@[simp] theorem asOptional_u64Decimal (o : Option UInt64) :
    (optional u64Decimal o).asOptional u64OfDecimal = some o := by
  have h : ∀ n, u64OfDecimal (u64Decimal n) = some n ∧ u64Decimal n ≠ .null :=
    fun n => ⟨u64OfDecimal_u64Decimal n, Value.noConfusion⟩
  exact asOptional_optional h o

@[simp] theorem Caller.ofJson_toJson (c : Caller) : Caller.ofJson c.toJson = some c := by
  obtain ⟨pid, start, boot, uid⟩ := c
  by_cases huid : uid = 0
  · subst huid
    simp [Caller.ofJson, Caller.toJson, Value.get, Value.getOr]
  · simp [Caller.ofJson, Caller.toJson, Value.get, Value.getOr, huid]

@[simp] theorem Phase.ofJson_toJson (p : Phase) : Phase.ofJson p.toJson = some p := by
  cases p <;> rfl

@[simp] theorem Archive.ofJson_toJson (a : Archive) : Archive.ofJson a.toJson = some a := by
  simp [Archive.ofJson, Archive.toJson, Value.get]

@[simp] theorem Origin.ofJson_toJson (o : Origin) : Origin.ofJson o.toJson = some o := by
  cases o <;> simp [Origin.ofJson, Origin.toJson, Value.get]

/-- A record as the journal holds it. -/
def Record.unpinned (r : Record) : Record := { r with pin := none }

theorem Record.ofJson_toJson {r : Record} (h : r.worker.generation < 2 ^ 64) :
    Record.ofJson r.toJson = some r.unpinned := by
  obtain ⟨caller, pin, nonce, worker, profile, limit, context, untilMs, phase, prompt, tokenDigest,
    output, resultDigest, inputDigest, product⟩ := r
  have hworker := Token.ofJson_toJson h
  have hstring : ∀ s : String, (Value.string s).asOptional Value.asStr = some (some s) :=
    fun s => asOptional_string (some s)
  have hproduct : ∀ a : Audit, a.toJson.asOptional Audit.ofJson = some (some a) := by
    have h : ∀ a : Audit, Audit.ofJson a.toJson = some a ∧ a.toJson ≠ .null :=
      fun a => ⟨a.ofJson_toJson, Value.noConfusion⟩
    exact fun a => asOptional_optional h (some a)
  -- the two fields that may be left out
  cases inputDigest <;> cases product <;>
    simp_all [Record.ofJson, Record.toJson, Record.unpinned, Value.get, Value.getOr, skipNone]

@[simp] theorem Record.toJson_unpinned (r : Record) : r.unpinned.toJson = r.toJson := rfl

theorem validateRecord_unpinned (acc : Names × Nat) (r : Record) :
    validateRecord acc r.unpinned = validateRecord acc r := rfl

theorem validateRecords_unpinned (records : List Record) :
    validateRecords (records.map Record.unpinned) = validateRecords records := by
  simp only [validateRecords, List.length_map, List.foldlM_map, validateRecord_unpinned]

theorem Snapshot.ofJson_toJson {s : Snapshot}
    (h : ∀ r ∈ s.records, r.worker.generation < 2 ^ 64) :
    Snapshot.ofJson s.toJson = some { s with records := s.records.map Record.unpinned } := by
  have harchives : (Value.array (s.archives.map Archive.toJson)).asItems Archive.ofJson =
      some s.archives := asItems_map fun a _ => Archive.ofJson_toJson a
  have hrecords : (Value.array (s.records.map Record.toJson)).asItems Record.ofJson =
      some (s.records.map Record.unpinned) := by
    have hmap : s.records.map Record.toJson =
        (s.records.map Record.unpinned).map Record.toJson := by
      rw [List.map_map]
      rfl
    rw [hmap]
    refine asItems_map fun r hr => ?_
    obtain ⟨x, hx, rfl⟩ := List.mem_map.mp hr
    exact Record.ofJson_toJson (h x hx)
  simp [Snapshot.ofJson, Snapshot.toJson, Value.get, harchives, hrecords]

/-! ## A journal is flat -/

theorem Audit.depth_toJson (a : Audit) : depth a.toJson ≤ 3 := by
  obtain ⟨subject, subjectGeneration, grantId, grantVersion, head, operation, usage⟩ := a
  have haction : depth usage.action.toJson = 0 := rfl
  have hkind : depth usage.selector.kind.toJson = 0 := by cases usage.selector.kind <;> rfl
  cases operation <;>
    simp [Audit.toJson, Use.toJson, Selector.toJson, skipNone, depth, fieldDepths, u64Json,
      haction, hkind]

theorem Record.depth_toJson (r : Record) : depth r.toJson ≤ 4 := by
  have hstring : ∀ s : String, depth (.string s) ≤ 0 := fun _ => Nat.le_refl 0
  have hdecimal : ∀ n : UInt64, depth (u64Decimal n) ≤ 0 := fun _ => Nat.le_refl 0
  have hcaller : depth r.caller.toJson ≤ 1 := by
    unfold Caller.toJson
    split <;> exact Nat.le_refl 1
  have hphase : depth r.phase.toJson = 0 := by cases r.phase <;> rfl
  have hworker : depth r.worker.toJson = 1 := rfl
  have hprompt := depth_optional hdecimal r.prompt
  have htoken := depth_optional hstring r.tokenDigest
  have houtput := depth_optional hdecimal r.output
  have hresult := depth_optional hstring r.resultDigest
  obtain ⟨caller, pin, nonce, worker, profile, limit, context, untilMs, phase, prompt, tokenDigest,
    output, resultDigest, inputDigest, product⟩ := r
  cases product with
  | none =>
    cases inputDigest <;>
      simp_all [Record.toJson, skipNone, depth, fieldDepths, u64Decimal, decimal]
  | some product =>
    have hproduct := Audit.depth_toJson product
    cases inputDigest <;>
      simp_all [Record.toJson, skipNone, depth, fieldDepths, u64Decimal, decimal] <;> omega

theorem Snapshot.depth_toJson (s : Snapshot) : depth s.toJson ≤ maxDepth := by
  have harchive : ∀ a : Archive, depth a.toJson ≤ 1 := fun a => Nat.le_refl 1
  have harchives := depths_map harchive s.archives
  have hrecords := depths_map Record.depth_toJson s.records
  have horigin : depth s.origin.toJson ≤ 1 := by cases s.origin <;> exact Nat.le_refl 1
  have hmax : maxDepth = 127 := rfl
  simp only [Snapshot.toJson, depth, fieldDepths, u32Json]
  omega

end LumaOS.Inference
