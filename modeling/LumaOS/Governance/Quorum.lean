import LumaOS.Governance.Catalog
import Mathlib.Data.List.Perm.Basic
import Mathlib.Data.Prod.Lex
import Mathlib.Data.String.Basic

/-!
# The approval quorum, at signing and in the envelope

`check_signing_approvals` (`model_trust.rs:2989-3036`) selects the approvals of a release request
from the catalog before anything is signed; `Envelope::validate` (`model_trust.rs:2217-2257`) checks
the approvals that were published with the signature. One counts and compares digests, the other
walks a strictly ordered list.

* `validate_isQuorum`, `checkSigningApprovals_iff`: both accept exactly a quorum (`IsQuorum`), each with
  its own additions.
* `signing_quorum_agrees`: what can be signed verifies, and what verifies could be signed.
-/

namespace LumaOS.Governance

open LumaOS.Base LumaOS.Text LumaOS.Json

/-! ## Signing -/

section Signing

variable (sha256 : Bytes → Vector UInt8 32) (c : Catalog) (s : ModelStatement) (interval : Interval)

/-- The approvals of the statement's request, sorted by activity and principal. -/
def signingApprovals : List Approval :=
  ((c.modelApprovals.toList.map Prod.snd).filter fun a =>
    a.releaseRequestSha256 == s.releaseRequestSha256).mergeSort Envelope.notAfter

/-- One approval of `check_signing_approvals`; the accumulator is the approvals before it. -/
def signingStep (seen : List Approval) (a : Approval) : Result (List Approval) := do
  let message :=
    "model signing quorum is non-independent or later than actual signing authorization"
  a.checkRequest sha256 s.request
  refuseIf (seen.any (fun b => b.principalId == a.principalId) ||
    seen.any (fun b => b.activity == a.activity)) message
  let approved ← timestamp a.approvedAt
  let signed ← timestamp s.signedAt
  refuseIf (approved > signed) message
  c.checkCustodian a.principalId a.assignmentId a.assignmentReceiptSha256 a.activity interval
  pure (seen ++ [a])

/-- `model_trust::check_signing_approvals`. -/
def checkSigningApprovals : Result Unit := do
  let approvals := signingApprovals c s
  let message := "model signer lacks exact independently checkpointed approval quorum"
  let expected ← approvalActivities s.environment
  refuseIf (approvals.length != expected.length) message
  let digest ← modelDigest sha256 (Envelope.approvalSet approvals)
  refuseIf (digest != s.approvalSetSha256) message
  let seen ← approvals.foldlM (signingStep sha256 c s interval) []
  let activities := seen.map (·.activity)
  let expected ← approvalActivities s.environment
  refuseIf (!(activities.all expected.contains && expected.all activities.contains))
    "model signing activities do not match exact quorum"

end Signing

/-! ## Quorums -/

variable {sha256 : Bytes → Vector UInt8 32} {c : Catalog} {s : ModelStatement} {interval : Interval}
  {approvals : List Approval}

/-- The approval is for the request, and no later than the signature. -/
structure Timely (sha256 : Bytes → Vector UInt8 32) (s : ModelStatement) (a : Approval) : Prop where
  request : a.checkRequest sha256 s.request = .ok ()
  time : ∃ t u, timestamp a.approvedAt = .ok t ∧ timestamp s.signedAt = .ok u ∧ t ≤ u

/-- **A quorum**: one timely approval for each activity, by different principals, and the set that
the statement binds. -/
structure IsQuorum (sha256 : Bytes → Vector UInt8 32) (s : ModelStatement)
    (approvals : List Approval) : Prop where
  timely : ∀ a ∈ approvals, Timely sha256 s a
  principals : (approvals.map (·.principalId)).Nodup
  activities : (approvals.map (·.activity)).Nodup
  exact : ∃ expected, approvalActivities s.environment = .ok expected ∧
    ∀ x, x ∈ approvals.map (·.activity) ↔ x ∈ expected
  bound : modelDigest sha256 (Envelope.approvalSet approvals) = .ok s.approvalSetSha256

/-- **A loop over approvals** that appends each one it accepts, after a check of its own and one
against those before it. -/
theorem foldlM_approvals {f : List Approval → Approval → Result (List Approval)}
    {P : Approval → Prop} {R : Approval → Approval → Prop}
    (hf : ∀ seen a t, seen.Pairwise R →
      (f seen a = .ok t ↔ t = seen ++ [a] ∧ P a ∧ ∀ b ∈ seen, R b a)) :
    ∀ {as seen t : List Approval}, seen.Pairwise R → (as.foldlM f seen = .ok t ↔
      t = seen ++ as ∧ (∀ a ∈ as, P a) ∧ as.Pairwise R ∧ ∀ b ∈ seen, ∀ a ∈ as, R b a)
  | [], seen, t, _ => by
    rw [List.foldlM_nil, pure_eq_ok]
    simp [eq_comm]
  | a :: as, seen, t, hs => by
    have hnext : (∀ b ∈ seen, R b a) → (seen ++ [a]).Pairwise R := fun h =>
      List.pairwise_append.mpr ⟨hs, List.pairwise_singleton R a, fun b hb x hx =>
        List.mem_singleton.mp hx ▸ h b hb⟩
    rw [List.foldlM_cons, bind_eq_ok]
    constructor
    · rintro ⟨u, hu, ht⟩
      obtain ⟨rfl, ha, hseen⟩ := (hf seen a u hs).mp hu
      obtain ⟨rfl, has, hpair, hbefore⟩ := (foldlM_approvals hf (hnext hseen)).mp ht
      refine ⟨by simp, List.forall_mem_cons.mpr ⟨ha, has⟩, List.pairwise_cons.mpr
        ⟨hbefore a (List.mem_append_right _ (List.mem_singleton_self a)), hpair⟩, fun b hb => ?_⟩
      exact List.forall_mem_cons.mpr ⟨hseen b hb, hbefore b (List.mem_append_left _ hb)⟩
    · rintro ⟨rfl, hall, hpair, hbefore⟩
      obtain ⟨ha, has⟩ := List.forall_mem_cons.mp hall
      obtain ⟨hrest, hpair⟩ := List.pairwise_cons.mp hpair
      have hseen : ∀ b ∈ seen, R b a := fun b hb => hbefore b hb a List.mem_cons_self
      refine ⟨seen ++ [a], (hf seen a _ hs).mpr ⟨rfl, ha, hseen⟩,
        (foldlM_approvals hf (hnext hseen)).mpr ⟨by simp, has, hpair, fun b hb x hx => ?_⟩⟩
      · rcases List.mem_append.mp hb with hb | hb
        · exact hbefore b hb x (List.mem_cons_of_mem a hx)
        · rw [List.mem_singleton.mp hb]
          exact hrest x hx

/-- Neither the principal nor the activity is the same. -/
def Independent (b a : Approval) : Prop := b.principalId ≠ a.principalId ∧ b.activity ≠ a.activity

theorem pairwise_independent : approvals.Pairwise Independent ↔
    (approvals.map (·.principalId)).Nodup ∧ (approvals.map (·.activity)).Nodup := by
  simp only [List.Nodup, List.pairwise_map, ← List.pairwise_and_iff]
  exact Iff.rfl

theorem any_false_iff {seen : List Approval} {a : Approval} :
    (seen.any (fun b => b.principalId == a.principalId) ||
      seen.any (fun b => b.activity == a.activity)) = false ↔ ∀ b ∈ seen, Independent b a := by
  simp only [Bool.or_eq_false_iff, List.any_eq_false, beq_iff_eq, Independent]
  exact forall₂_and.symm

theorem same_activities {expected activities : List String} :
    (!(activities.all expected.contains && expected.all activities.contains)) = false ↔
      ∀ x, x ∈ activities ↔ x ∈ expected := by
  simp only [Bool.not_eq_false', Bool.and_eq_true, List.all_eq_true, List.contains_iff_mem]
  exact ⟨fun h x => ⟨h.1 x, h.2 x⟩, fun h => ⟨fun x => (h x).mp, fun x => (h x).mpr⟩⟩

/-! ## Order -/

/-- The pair that approvals are sorted by. -/
def Approval.order (a : Approval) : String ×ₗ String := toLex (a.activity, a.principalId)

theorem notAfter_iff {a b : Approval} : Envelope.notAfter a b = true ↔ a.order ≤ b.order := by
  rw [Approval.order, Approval.order, Prod.Lex.toLex_le_toLex]
  simp only [Envelope.notAfter, Bool.or_eq_true, Bool.and_eq_true, decide_eq_true_eq, beq_iff_eq]

theorem notAfter_false {a b : Approval} : Envelope.notAfter a b = false ↔ b.order < a.order := by
  rw [← Bool.not_eq_true, notAfter_iff, not_le]

/-- Behind ordered approvals, only the last one has to be looked at. -/
theorem getLast_notAfter {seen : List Approval} {a : Approval}
    (h : seen.Pairwise fun b x => b.order < x.order) :
    seen.getLast?.any (Envelope.notAfter a) = false ↔ ∀ b ∈ seen, b.order < a.order := by
  rcases List.eq_nil_or_concat seen with rfl | ⟨init, last, rfl⟩
  · simp
  · rw [List.concat_eq_append] at h ⊢
    obtain ⟨-, -, hlast⟩ := List.pairwise_append.mp h
    simp only [List.getLast?_append, List.getLast?_singleton, Option.some_or, Option.any_some,
      notAfter_false]
    constructor
    · intro hbefore b hb
      rcases List.mem_append.mp hb with hb | hb
      · exact (hlast b hb last (List.mem_singleton_self last)).trans hbefore
      · rw [List.mem_singleton.mp hb]
        exact hbefore
    · intro hall
      exact hall last (List.mem_append_right _ (List.mem_singleton_self last))

theorem sorted_signingApprovals :
    (signingApprovals c s).Pairwise fun a b => a.order ≤ b.order := by
  have h := @List.pairwise_mergeSort _ Envelope.notAfter
    (fun a b x hab hbx => notAfter_iff.mpr ((notAfter_iff.mp hab).trans (notAfter_iff.mp hbx)))
    (fun a b => by
      rw [Bool.or_eq_true, notAfter_iff, notAfter_iff]
      exact le_total _ _)
    ((c.modelApprovals.toList.map Prod.snd).filter fun a =>
      a.releaseRequestSha256 == s.releaseRequestSha256)
  exact h.imp fun hab => notAfter_iff.mp hab

/-! ## The envelope -/

theorem approvalStep_eq_ok {e : Envelope} {seen t : List Approval} {a : Approval}
    (hs : seen.Pairwise fun b a => Independent b a ∧ b.order < a.order) :
    e.approvalStep sha256 seen a = .ok t ↔ t = seen ++ [a] ∧ Timely sha256 e.statement a ∧
      ∀ b ∈ seen, Independent b a ∧ b.order < a.order := by
  have hlast := getLast_notAfter (a := a) (hs.imp fun h => h.2)
  simp only [Envelope.approvalStep, bind_eq_ok, pure_eq_ok, refuseIf_eq_ok, Bool.or_eq_false_iff (x := (_ || _)),
    any_false_iff, hlast, decide_eq_false_iff_not, not_lt]
  constructor
  · rintro ⟨_, hreq, _, ⟨hind, hord⟩, t, ht, u, hu, _, hle, rfl⟩
    exact ⟨rfl, ⟨hreq, t, u, ht, hu, hle⟩, fun b hb => ⟨hind b hb, hord b hb⟩⟩
  · rintro ⟨rfl, ⟨hreq, t, u, ht, hu, hle⟩, hall⟩
    exact ⟨(), hreq, (), ⟨fun b hb => (hall b hb).1, fun b hb => (hall b hb).2⟩, t, ht, u, hu, (), hle,
      rfl⟩

/-- **What `Envelope::validate` accepts.** -/
theorem validate_isQuorum {e : Envelope} : e.validate sha256 = .ok () ↔
    (e.statement.validate sha256 = .ok () ∧ (∃ bytes, decode64 64 e.signature = .ok bytes) ∧
      e.schemaVersion = 1 ∧ e.signatureEncoding = "base64" ∧ e.approvals ≠ []) ∧
      IsQuorum sha256 e.statement e.approvals ∧
        e.approvals.Pairwise fun a b => a.order < b.order := by
  have hloop : ∀ {t}, e.approvals.foldlM (e.approvalStep sha256) [] = .ok t ↔
      t = [] ++ e.approvals ∧ (∀ a ∈ e.approvals, Timely sha256 e.statement a) ∧
        e.approvals.Pairwise (fun b a => Independent b a ∧ b.order < a.order) ∧
          ∀ b ∈ [], ∀ a ∈ e.approvals, Independent b a ∧ b.order < a.order :=
    foldlM_approvals (fun _ _ _ hs => approvalStep_eq_ok hs) List.Pairwise.nil
  simp only [Envelope.validate, bind_eq_ok, refuseIf_eq_ok, hloop, same_activities,
    Bool.or_eq_false_iff, bne_eq_false_iff_eq, List.isEmpty_eq_false_iff]
  constructor
  · rintro ⟨_, hstatement, bytes, hbytes, _, ⟨⟨hschema, hencoding⟩, hne⟩, _,
      ⟨rfl, htimely, hpair, -⟩, expected, hexpected, _, hsame, digest, hdigest, rfl⟩
    obtain ⟨hind, hord⟩ := List.pairwise_and_iff.mp hpair
    obtain ⟨hprincipals, hactivities⟩ := pairwise_independent.mp hind
    exact ⟨⟨hstatement, ⟨bytes, hbytes⟩, hschema, hencoding, hne⟩,
      ⟨htimely, hprincipals, hactivities, ⟨expected, hexpected, hsame⟩, hdigest⟩, hord⟩
  · rintro ⟨⟨hstatement, ⟨bytes, hbytes⟩, hschema, hencoding, hne⟩,
      ⟨htimely, hprincipals, hactivities, ⟨expected, hexpected, hsame⟩, hdigest⟩, hord⟩
    have hind := pairwise_independent.mpr ⟨hprincipals, hactivities⟩
    exact ⟨(), hstatement, bytes, hbytes, (), ⟨⟨hschema, hencoding⟩, hne⟩, _,
      ⟨rfl, htimely, List.pairwise_and_iff.mpr ⟨hind, hord⟩, fun b hb => absurd hb List.not_mem_nil⟩,
      expected, hexpected, (), hsame, _, hdigest, rfl⟩

/-! ## The signer -/

/-- The catalog still vouches for the approver. -/
def Custodian (c : Catalog) (interval : Interval) (a : Approval) : Prop :=
  c.checkCustodian a.principalId a.assignmentId a.assignmentReceiptSha256 a.activity interval =
    .ok ()

theorem signingStep_eq_ok {seen t : List Approval} {a : Approval} :
    signingStep sha256 c s interval seen a = .ok t ↔ t = seen ++ [a] ∧
      (Timely sha256 s a ∧ Custodian c interval a) ∧ ∀ b ∈ seen, Independent b a := by
  simp only [signingStep, bind_eq_ok, pure_eq_ok, refuseIf_eq_ok, any_false_iff,
    decide_eq_false_iff_not, not_lt]
  constructor
  · rintro ⟨_, hreq, _, hind, t, ht, u, hu, _, hle, _, hcustodian, rfl⟩
    exact ⟨rfl, ⟨⟨hreq, t, u, ht, hu, hle⟩, hcustodian⟩, hind⟩
  · rintro ⟨rfl, ⟨⟨hreq, t, u, ht, hu, hle⟩, hcustodian⟩, hind⟩
    exact ⟨(), hreq, (), hind, t, ht, u, hu, (), hle, (), hcustodian, rfl⟩

theorem nodup_approvalActivities {env : String} {expected : List String}
    (h : approvalActivities env = .ok expected) : expected.Nodup ∧ expected ≠ [] := by
  simp only [approvalActivities, bind_eq_ok, pure_eq_ok] at h
  obtain ⟨_, -, rfl⟩ := h
  split
  · exact ⟨by decide, by decide⟩
  · exact ⟨by decide, by decide⟩

/-- The activities of a quorum are the required ones, each once. -/
theorem IsQuorum.perm (h : IsQuorum sha256 s approvals) : ∃ expected,
    approvalActivities s.environment = .ok expected ∧
      (approvals.map (·.activity)).Perm expected := by
  obtain ⟨expected, hexpected, hsame⟩ := h.exact
  exact ⟨expected, hexpected, (List.perm_ext_iff_of_nodup h.activities
    (nodup_approvalActivities hexpected).1).mpr hsame⟩

/-- **What `check_signing_approvals` accepts.** -/
theorem checkSigningApprovals_iff : checkSigningApprovals sha256 c s interval = .ok () ↔
    IsQuorum sha256 s (signingApprovals c s) ∧
      ∀ a ∈ signingApprovals c s, Custodian c interval a := by
  have hloop : ∀ {t}, (signingApprovals c s).foldlM (signingStep sha256 c s interval) [] = .ok t ↔
      t = [] ++ signingApprovals c s ∧
        (∀ a ∈ signingApprovals c s, Timely sha256 s a ∧ Custodian c interval a) ∧
          (signingApprovals c s).Pairwise Independent ∧
            ∀ b ∈ [], ∀ a ∈ signingApprovals c s, Independent b a :=
    foldlM_approvals (fun _ _ _ _ => signingStep_eq_ok) List.Pairwise.nil
  simp only [checkSigningApprovals, bind_eq_ok, refuseIf_eq_ok, hloop, same_activities,
    bne_eq_false_iff_eq]
  constructor
  · rintro ⟨expected, hexpected, _, -, digest, hdigest, _, rfl, _, ⟨rfl, hall, hind, -⟩, again, hagain,
      hsame⟩
    obtain ⟨hprincipals, hactivities⟩ := pairwise_independent.mp hind
    exact ⟨⟨fun a ha => (hall a ha).1, hprincipals, hactivities, ⟨again, hagain, hsame⟩, hdigest⟩,
      fun a ha => (hall a ha).2⟩
  · rintro ⟨hquorum, hcustodians⟩
    obtain ⟨expected, hexpected, hperm⟩ := hquorum.perm
    have hlength := hperm.length_eq
    rw [List.length_map] at hlength
    exact ⟨expected, hexpected, (), hlength, _, hquorum.bound, (), rfl, _,
      ⟨rfl, fun a ha => ⟨hquorum.timely a ha, hcustodians a ha⟩,
        pairwise_independent.mpr ⟨hquorum.principals, hquorum.activities⟩,
        fun b hb => absurd hb List.not_mem_nil⟩, expected, hexpected, fun x => hperm.mem_iff⟩

/-! ## Agreement -/

/-- Sorted approvals of different activities are strictly ordered. -/
theorem IsQuorum.strict (h : IsQuorum sha256 s (signingApprovals c s)) :
    (signingApprovals c s).Pairwise fun a b => a.order < b.order := by
  have hactivities := h.activities
  rw [List.Nodup, List.pairwise_map] at hactivities
  refine (List.pairwise_and_iff.mpr ⟨sorted_signingApprovals, hactivities⟩).imp fun hab => ?_
  refine lt_of_le_of_ne hab.1 fun heq => hab.2 ?_
  exact (Prod.ext_iff.mp (toLex.injective heq)).1

theorem IsQuorum.ne_nil (h : IsQuorum sha256 s approvals) : approvals ≠ [] := by
  obtain ⟨expected, hexpected, hperm⟩ := h.perm
  rintro rfl
  exact (nodup_approvalActivities hexpected).2 hperm.nil_eq.symm

/-- What is independent about a quorum. -/
structure Separated (s : ModelStatement) (approvals : List Approval) : Prop where
  activities : ∃ expected, approvalActivities s.environment = .ok expected ∧
    (approvals.map (·.activity)).Perm expected
  principals : (approvals.map (·.principalId)).Nodup
  signer : ∀ a ∈ approvals, a.principalId ≠ s.signingPrincipalId
  time : ∀ a ∈ approvals, ∃ t u, timestamp a.approvedAt = .ok t ∧ timestamp s.signedAt = .ok u ∧ t ≤ u

theorem IsQuorum.separated (h : IsQuorum sha256 s approvals) : Separated s approvals where
  activities := h.perm
  principals := h.principals
  signer a ha := by
    have hreq := (h.timely a ha).request
    simp only [Approval.checkRequest, bind_eq_ok, refuseIf_eq_ok, Bool.or_eq_false_iff,
      beq_eq_false_iff_ne] at hreq
    obtain ⟨_, -, _, -, _, -, _, -, _, -, -, hsigner⟩ := hreq
    exact hsigner
  time a ha := (h.timely a ha).time

/-- **Signing-time quorum and envelope quorum agree**, and both separate duties. -/
theorem signing_quorum_agrees {signature : String} (hs : s.validate sha256 = .ok ())
    (hsignature : ∃ bytes, decode64 64 signature = .ok bytes) :
    (checkSigningApprovals sha256 c s interval = .ok () ↔
      (Envelope.mk (signingApprovals c s) 1 signature "base64" s).validate sha256 = .ok () ∧
        ∀ a ∈ signingApprovals c s, c.checkCustodian a.principalId a.assignmentId
          a.assignmentReceiptSha256 a.activity interval = .ok ()) ∧
    (checkSigningApprovals sha256 c s interval = .ok () → Separated s (signingApprovals c s)) ∧
    ∀ e : Envelope, e.validate sha256 = .ok () → Separated e.statement e.approvals := by
  refine ⟨?_, fun h => (checkSigningApprovals_iff.mp h).1.separated,
    fun e h => (validate_isQuorum.mp h).2.1.separated⟩
  rw [checkSigningApprovals_iff, validate_isQuorum]
  constructor
  · rintro ⟨hquorum, hcustodians⟩
    exact ⟨⟨⟨hs, hsignature, rfl, rfl, hquorum.ne_nil⟩, hquorum, hquorum.strict⟩, hcustodians⟩
  · rintro ⟨⟨-, hquorum, -⟩, hcustodians⟩
    exact ⟨hquorum, hcustodians⟩

/-- A lab statement, where every digest is the same. -/
def labStatement : ModelStatement where
  approvalSetSha256 := repeatText "01" 32
  artifactType := "model-profile-catalog"
  catalogId := "catalog-1"
  catalogSequence := 1
  catalogSha256 := repeatText "01" 32
  environment := "lab"
  notAfter := "2026-12-31T00:00:00Z"
  notBefore := "2026-01-01T00:00:00Z"
  policyVersion := "policy-1"
  purpose := "model-profile-catalog-lab"
  releaseId := "release-1"
  releaseRequestSha256 := repeatText "01" 32
  schemaVersion := 1
  signatureAlgorithm := "Ed25519"
  signedAt := "2026-06-01T00:00:00Z"
  signerKeyId := "key-1"
  signingActivity := "model-catalog.sign.lab"
  signingAssignmentId := "assignment-1"
  signingAssignmentReceiptSha256 := repeatText "01" 32
  signingPrincipalId := "signer-1"

/-- The one approval that a lab release needs. -/
def labApproval : Approval where
  activity := "model-catalog.approve.lab-release"
  approvedAt := "2026-05-31T00:00:00Z"
  approvalDecisionReceiptSha256 := repeatText "01" 32
  assignmentId := "assignment-2"
  assignmentReceiptSha256 := repeatText "01" 32
  catalogSha256 := repeatText "01" 32
  decision := "approved"
  principalId := "approver-1"
  releaseRequestSha256 := repeatText "01" 32
  releaseId := "release-1"

/-- A catalog with that approval, of a principal that may still give it. -/
def labCatalog : Catalog :=
  { Catalog.initial with
    modelApprovals := (∅ : Table Approval).insert "approval-1" labApproval
    assignments := (∅ : Table Assignment).insert "assignment-2"
      ⟨"assignment-2", "approver-1", 1, "approvers", 1, 1, 0, 1000, false⟩
    assignmentReceipts := (∅ : Table String).insert "assignment-2" (repeatText "01" 32)
    roles := (∅ : Table Role).insert "approvers" ⟨"approvers", [labApproval.activity], 1⟩
    principalRegistry := some ⟨2, "lab", [⟨"approver-1", 1, "approver", 1000, true⟩], none⟩
    accountCommitments := (∅ : Table String).insert "approver-1" (repeatText "01" 32) }

theorem signing_quorum_sample :
    let sha256 := fun _ : Bytes => Vector.replicate 32 1
    let signature := base64 (List.replicate 64 0)
    signingApprovals labCatalog labStatement = [labApproval] ∧
      checkSigningApprovals sha256 labCatalog labStatement ⟨1, 2⟩ = .ok () ∧
      (Envelope.mk (signingApprovals labCatalog labStatement) 1 signature "base64"
        labStatement).validate sha256 = .ok () ∧
      Separated labStatement (signingApprovals labCatalog labStatement) := by
  intro sha256 signature
  have hstatement : labStatement.validate sha256 = .ok () := by decide +kernel
  have hsignature : decode64 64 signature = .ok (List.replicate 64 0) := by decide +kernel
  have happrovals : signingApprovals labCatalog labStatement = [labApproval] := by
    have hlist : labCatalog.modelApprovals.toList = [("approval-1", labApproval)] := rfl
    rw [signingApprovals, hlist]
    decide +kernel
  have hcheck : checkSigningApprovals sha256 labCatalog labStatement ⟨1, 2⟩ = .ok () := by
    rw [checkSigningApprovals, happrovals]
    decide +kernel
  obtain ⟨hagrees, hseparated, -⟩ := @signing_quorum_agrees sha256 labCatalog labStatement ⟨1, 2⟩
    signature hstatement ⟨_, hsignature⟩
  exact ⟨happrovals, hcheck, (hagrees.mp hcheck).1, hseparated hcheck⟩

end LumaOS.Governance
