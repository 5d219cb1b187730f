import LumaOS.Delegation.Authority
import Mathlib

/-!
# Runs of the administration authority

A call that passes its checks writes, and then needs a receipt. `Receipted` says that the receipt's
clock and id are usable whenever a call gets that far, and that a new assignment does not take the
id of a revoked one.

* `Sealed` is the invariant of a run of such calls: one receipt for each version after the first,
  linked to the one before it.
* `hasActivity_eq_ok`: what an authorization looks at, in any state.

**`orderly_iff`**: a run keeps its state under receipts exactly when all of its calls are
`Receipted`.
-/

namespace LumaOS.Delegation

open LumaOS.Base LumaOS.Text LumaOS.Json
open LumaOS.Capability (isIdentifier isIdentifier_iff isTrimmed isFree)

namespace Authority

variable {a b : Authority} {sha256 : Bytes → Bytes} {op : Op} {change : Change}

/-! ## The condition -/

/-- The readings that the receipt takes are an aware datetime and an identifier. -/
def Op.Ready (op : Op) : Prop :=
  (∃ time, op.receiptTime = .ok (some time)) ∧
    ∃ receiptId, op.receiptId = .ok (.text receiptId) ∧ isIdentifier receiptId = true

/-- A call that writes gets its receipt, and does not take the id of a revoked assignment. -/
def Receipted (a : Authority) (op : Op) : Prop :=
  ∀ change, op.outcome a = .ok (.writes change) → op.Ready ∧
    ∀ assignment, change = .assignment assignment →
      ∀ old, a.assignments.get? assignment.assignmentId = some old → old.revokedAt = none

/-! ## The promises of a run -/

/-- The receipts are linked: numbered from 1, each with the digest of the one before it. -/
def Linked (sha256 : Bytes → Bytes) (receipts : List DelegationReceipt) : Prop :=
  ∀ (i : Nat) (r : DelegationReceipt), receipts[i]? = some r →
    r.sequence = i + 1 ∧
      r.previousDigest = (receipts.take i).getLast?.map DelegationReceipt.digest ∧
      r.digest = payloadDigest sha256 r

/-- One receipt for each version after the first. -/
structure Sealed (sha256 : Bytes → Bytes) (a : Authority) : Prop where
  version : a.stateVersion = a.receipts.length + 1
  linked : Linked sha256 a.receipts

/-- The assignment of that id is revoked. -/
def Revoked (a : Authority) (assignmentId : String) : Prop :=
  ∃ assignment, a.assignments.get? assignmentId = some assignment ∧
    assignment.revokedAt.isSome = true

/-- The assignment of that id authorizes at a time. -/
def Authorizes (a : Authority) (assignmentId : String) (time : Datetime) : Prop :=
  ∃ assignment, a.assignments.get? assignmentId = some assignment ∧ inForce time assignment = true

/-- The states a run goes through. -/
def reached (sha256 : Bytes → Bytes) (a : Authority) (ops : List Op) : List Authority :=
  a :: (events (step sha256) a ops).map Event.after

/-- **What the authority promises of a run.** -/
structure Orderly (sha256 : Bytes → Bytes) (a : Authority) (ops : List Op) : Prop where
  unchanged : ∀ e ∈ events (step sha256) a ops, ∀ fault, e.result = .error fault →
    e.after = e.before
  receipts : ∀ b ∈ reached sha256 a ops, Sealed sha256 b
  activities : ∀ b ∈ reached sha256 a ops, ∀ subject activity : String, ∀ time,
    isIdentifier subject = true → isIdentifier activity = true → subject ≠ b.bootstrapAdmin →
      activity ∈ b.activities → ∃ allowed,
        b.hasActivity (.text subject) (.text activity) (.ok (some time)) = .ok allowed ∧
          (allowed = true ↔ ∃ assignment ∈ b.assignments.values, assignment.subject = subject ∧
            assignment.revokedAt = none ∧ assignment.issuedAt ≤ time ∧
              time < assignment.expiresAt ∧ activity ∈ assignment.activities)
  revoked : (reached sha256 a ops).Pairwise fun b c => ∀ assignmentId, b.Revoked assignmentId →
    ∀ time, ¬c.Authorizes assignmentId time

/-! ## Authorization -/

theorem identifier_eq_ok {field value : String} (h : isIdentifier value = true) :
    identifier field (.text value) = .ok value := by
  obtain ⟨htrimmed, hfree⟩ := isIdentifier_iff.mp h
  simp [identifier, raiseIf, htrimmed, hfree, bind, Except.bind, pure, Except.pure]

theorem identifier_eq_error {field value : String} (h : ¬isIdentifier value = true) :
    ∃ e, identifier field (.text value) = .error e := by
  rw [isIdentifier_iff, not_and_or] at h
  unfold identifier raiseIf
  by_cases htrimmed : isTrimmed value = true
  · have hfree := h.resolve_left (not_not_intro htrimmed)
    exact ⟨_, by simp [htrimmed, hfree, bind, Except.bind]; rfl⟩
  · exact ⟨_, by simp [htrimmed, bind, Except.bind]; rfl⟩

/-- **What an authorization looks at.** -/
theorem hasActivity_eq_ok {subject activity : String} {time : Datetime}
    (hsubject : isIdentifier subject = true) (hactivity : isIdentifier activity = true)
    (hroot : subject ≠ a.bootstrapAdmin) (hknown : activity ∈ a.activities) : ∃ allowed,
      a.hasActivity (.text subject) (.text activity) (.ok (some time)) = .ok allowed ∧
        (allowed = true ↔ ∃ assignment ∈ a.assignments.values, assignment.subject = subject ∧
          assignment.revokedAt = none ∧ assignment.issuedAt ≤ time ∧
            time < assignment.expiresAt ∧ activity ∈ assignment.activities) := by
  have hcontains : a.activities.contains activity = true := hknown
  refine ⟨a.assignments.values.any fun assignment => assignment.subject == subject &&
    inForce time assignment && assignment.activities.contains activity, ?_, ?_⟩
  · simp only [hasActivity, identifier_eq_ok hsubject, identifier_eq_ok hactivity, awareUtc,
      bind_eq_ok, Except.ok.injEq, exists_eq_left', hcontains, Bool.not_true, Bool.false_eq_true,
      if_false, if_neg hroot]
    rfl
  · simp only [List.any_eq_true, Bool.and_eq_true, beq_iff_eq, inForce, decide_eq_true_eq,
      Option.isNone_iff_eq_none, List.contains_iff_mem, and_assoc]

/-! ## One call -/

theorem linked_append {receipts : List DelegationReceipt} {r : DelegationReceipt}
    (h : Linked sha256 receipts) (hsequence : r.sequence = receipts.length + 1)
    (hprevious : r.previousDigest = receipts.getLast?.map DelegationReceipt.digest)
    (hdigest : r.digest = payloadDigest sha256 r) : Linked sha256 (receipts ++ [r]) := by
  intro i x hx
  rcases Nat.lt_trichotomy i receipts.length with hlt | rfl | hgt
  · rw [List.getElem?_append_left hlt] at hx
    rw [List.take_append_of_le_length (Nat.le_of_lt hlt)]
    exact h i x hx
  · rw [List.getElem?_append_right (Nat.le_refl _), Nat.sub_self] at hx
    obtain rfl : r = x := Option.some.inj hx
    rw [List.take_append_of_le_length (Nat.le_refl _), List.take_length]
    exact ⟨hsequence, hprevious, hdigest⟩
  · rw [List.getElem?_eq_none (by simp; omega)] at hx
    cases hx

@[simp] theorem receipts_apply : (a.apply change).receipts = a.receipts := by
  cases change <;> rfl

@[simp] theorem stateVersion_apply : (a.apply change).stateVersion = a.stateVersion + 1 := by
  cases change <;> rfl

/-- What the checks let through: a new assignment is open and has a window, a revocation is one. -/
def Change.Fits : Change → Prop
  | .activity _ | .role _ => True
  | .assignment issued => issued.revokedAt = none ∧ issued.issuedAt < issued.expiresAt
  | .revocation _ closed => closed.revokedAt.isSome = true

theorem fits_of_registerActivity {actor activity : Arg} {answers : Answers}
    (h : a.registerActivity actor activity answers = .ok (.writes change)) : Change.Fits change := by
  simp only [registerActivity, bind_eq_ok] at h
  obtain ⟨name, -, _, -, h⟩ := h
  split at h
  · cases h
  · cases h
    exact trivial

theorem fits_of_defineRole {actor role : Arg} {activities : List Arg} {version : Option Int}
    {answers : Answers} (h : a.defineRole actor role activities version answers =
      .ok (.writes change)) : Change.Fits change := by
  simp only [defineRole, bind_eq_ok] at h
  obtain ⟨candidate, -, _, -, _, -, h⟩ := h
  split at h
  · obtain ⟨_, -, h⟩ := bind_eq_ok.mp h
    cases h
    exact trivial
  · obtain ⟨_, -, h⟩ := bind_eq_ok.mp h
    split at h
    · cases h
    · cases h
      exact trivial

theorem fits_of_assignRole {actor subject role : Arg} {expiresAt : Option Datetime}
    {answers : Answers} (h : a.assignRole actor subject role expiresAt answers =
      .ok (.writes change)) : Change.Fits change := by
  simp only [assignRole, bind_eq_ok] at h
  obtain ⟨name, -, _, -, _, -, expires, -, _, -, _, -, now, -, h⟩ := h
  split at h
  · cases h
  · simp only [bind_eq_ok, raiseIf_eq_ok, decide_eq_false_iff_not] at h
    obtain ⟨_, -, _, -, _, -, _, hwindow, h⟩ := h
    cases h
    exact ⟨rfl, Datetime.not_le.mp hwindow⟩

theorem fits_of_revokeAssignment {actor assignmentId : Arg} {version : Int} {answers : Answers}
    (h : a.revokeAssignment actor assignmentId version answers = .ok (.writes change)) :
    Change.Fits change := by
  simp only [revokeAssignment, bind_eq_ok] at h
  obtain ⟨name, -, _, -, h⟩ := h
  split at h
  · cases h
  · obtain ⟨_, -, h⟩ := bind_eq_ok.mp h
    split at h
    · cases h
    · simp only [bind_eq_ok] at h
      obtain ⟨_, -, _, -, h⟩ := h
      cases h
      exact rfl

theorem fits_of_outcome (h : op.outcome a = .ok (.writes change)) : Change.Fits change := by
  cases op with
  | registerActivity actor activity answers => exact fits_of_registerActivity h
  | defineRole actor role activities version answers => exact fits_of_defineRole h
  | assignRole actor subject role expiresAt answers => exact fits_of_assignRole h
  | revokeAssignment actor assignmentId version answers => exact fits_of_revokeAssignment h

/-- `_record_locked` returns exactly when its callbacks answer well; then it appends a receipt. -/
theorem recordLocked_cases (action target actor : String) :
    (op.Ready ∧ ∃ r, a.recordLocked sha256 action target actor op.receiptTime op.receiptId =
        .ok { a with receipts := a.receipts ++ [r] } ∧ r.sequence = a.receipts.length + 1 ∧
          r.previousDigest = a.receipts.getLast?.map DelegationReceipt.digest ∧
          r.digest = payloadDigest sha256 r) ∨
      (¬op.Ready ∧ ∃ e, a.recordLocked sha256 action target actor op.receiptTime op.receiptId =
        .error e) := by
  unfold recordLocked Op.Ready
  rcases op.receiptTime with e | _ | time
  · exact .inr ⟨by simp, e, rfl⟩
  · exact .inr ⟨by simp, _, rfl⟩
  rcases op.receiptId with e | (value | _)
  · exact .inr ⟨by simp, e, rfl⟩
  · by_cases hid : isIdentifier value = true
    · have hdrawn : identifier "receipt_id" (.text value) = .ok value := identifier_eq_ok hid
      refine .inl ⟨⟨⟨time, rfl⟩, value, rfl, hid⟩, ?_⟩
      simp only [awareUtc, hdrawn, bind, Except.bind, pure, Except.pure]
      exact ⟨_, rfl, rfl, rfl, rfl⟩
    · refine .inr ⟨?_, ?_⟩
      · rintro ⟨-, id, h, hvalid⟩
        cases h
        exact hid hvalid
      · have hdrawn : ∃ e, identifier "receipt_id" (.text value) = .error e :=
          identifier_eq_error hid
        obtain ⟨e, hdrawn⟩ := hdrawn
        refine ⟨e, ?_⟩
        simp only [awareUtc, hdrawn, bind, Except.bind]
  · exact .inr ⟨by simp, _, rfl⟩

/-- **What one call does.** -/
theorem step_cases (sha256 : Bytes → Bytes) (a : Authority) (op : Op) :
    ((step sha256 a op).2 = a ∧ ∀ change, op.outcome a ≠ .ok (.writes change)) ∨
      ∃ change, op.outcome a = .ok (.writes change) ∧
        ((op.Ready ∧ (step sha256 a op).1 = .ok change ∧ ∃ r, (step sha256 a op).2 =
            { a.apply change with receipts := a.receipts ++ [r] } ∧
              r.sequence = a.receipts.length + 1 ∧
              r.previousDigest = a.receipts.getLast?.map DelegationReceipt.digest ∧
              r.digest = payloadDigest sha256 r) ∨
          (¬op.Ready ∧ ∃ e, step sha256 a op = (.error e, a.apply change))) := by
  unfold step
  rcases hout : op.outcome a with e | (found | change)
  · exact .inl ⟨rfl, fun _ h => by cases h⟩
  · exact .inl ⟨rfl, fun _ h => by cases h⟩
  · refine .inr ⟨change, rfl, ?_⟩
    dsimp only
    rcases (@recordLocked_cases (a.apply change) sha256 op) (subject sha256 change).1 (subject sha256 change).2 op.actorText with
      ⟨hready, r, hrecord, hr⟩ | ⟨hready, e, hrecord⟩
    · rw [hrecord]
      rw [receipts_apply] at hr ⊢
      exact .inl ⟨hready, rfl, r, rfl, hr⟩
    · rw [hrecord]
      exact .inr ⟨hready, e, rfl⟩

/-- What `Receipted` leaves of the two cases. -/
theorem step_receipted (h : Receipted a op) :
    ((step sha256 a op).2 = a ∧ ∀ change, op.outcome a ≠ .ok (.writes change)) ∨
      ∃ change, op.outcome a = .ok (.writes change) ∧ (step sha256 a op).1 = .ok change ∧
        ∃ r, (step sha256 a op).2 = { a.apply change with receipts := a.receipts ++ [r] } ∧
          r.sequence = a.receipts.length + 1 ∧
          r.previousDigest = a.receipts.getLast?.map DelegationReceipt.digest ∧
          r.digest = payloadDigest sha256 r := by
  rcases step_cases sha256 a op with hkept | ⟨change, hout, ⟨-, hresult⟩ | ⟨hready, -⟩⟩
  · exact .inl hkept
  · exact .inr ⟨change, hout, hresult⟩
  · exact absurd (h change hout).1 hready

/-! ## Runs of receipted calls -/

theorem Sealed.step (hs : Sealed sha256 a) (h : Receipted a op) :
    Sealed sha256 (step sha256 a op).2 := by
  rcases step_receipted h with ⟨hkept, -⟩ | ⟨change, -, -, r, hafter, hsequence, hprevious, hdigest⟩
  · rw [hkept]
    exact hs
  · rw [hafter]
    refine ⟨?_, linked_append hs.linked hsequence hprevious hdigest⟩
    simp only [stateVersion_apply, List.length_append, List.length_singleton, hs.version]

theorem unchanged_of_error {fault : Fault} (h : Receipted a op)
    (he : (step sha256 a op).1 = .error fault) : (step sha256 a op).2 = a := by
  rcases step_receipted h with ⟨hkept, -⟩ | ⟨change, -, hok, -⟩
  · exact hkept
  · rw [hok] at he
    cases he

/-- A revoked assignment stays so under a write that does not take its id for a new one. -/
theorem Revoked.apply {assignmentId : String} (hr : a.Revoked assignmentId)
    (hout : op.outcome a = .ok (.writes change)) (h : Receipted a op) :
    (a.apply change).Revoked assignmentId := by
  obtain ⟨current, hcurrent, hrevoked⟩ := hr
  have hfits := fits_of_outcome hout
  cases change with
  | activity name | role definition => exact ⟨current, hcurrent, hrevoked⟩
  | assignment issued =>
    have hne : assignmentId ≠ issued.assignmentId := by
      rintro rfl
      rw [(h _ hout).2 issued rfl current hcurrent] at hrevoked
      cases hrevoked
    exact ⟨current, (Dict.get?_set _).trans ((if_neg hne).trans hcurrent), hrevoked⟩
  | revocation id closed =>
    by_cases hid : assignmentId = id
    · exact ⟨closed, (Dict.get?_set _).trans (if_pos hid), hfits⟩
    · exact ⟨current, (Dict.get?_set _).trans ((if_neg hid).trans hcurrent), hrevoked⟩

theorem Revoked.step {assignmentId : String} (hr : a.Revoked assignmentId) (h : Receipted a op) :
    (step sha256 a op).2.Revoked assignmentId := by
  rcases step_receipted h with ⟨hkept, -⟩ | ⟨change, hout, -, r, hafter, -⟩
  · rw [hkept]
    exact hr
  · rw [hafter]
    exact hr.apply hout h

theorem Revoked.not_authorizes {assignmentId : String} (h : a.Revoked assignmentId)
    (time : Datetime) : ¬a.Authorizes assignmentId time := by
  obtain ⟨current, hcurrent, hrevoked⟩ := h
  rintro ⟨assignment, hget, hforce⟩
  obtain rfl : current = assignment := Option.some.inj (hcurrent.symm.trans hget)
  unfold inForce at hforce
  rw [Option.isSome_iff_ne_none] at hrevoked
  rw [Bool.and_eq_true, Bool.and_eq_true, Option.isNone_iff_eq_none] at hforce
  exact hrevoked hforce.1.1

/-! ## What a call that is not receipted breaks -/

/-- Without a receipt, the version has moved. -/
theorem not_unchanged_of_not_ready (hout : op.outcome a = .ok (.writes change)) (h : ¬op.Ready) :
    ∃ fault, (step sha256 a op).1 = .error fault ∧ (step sha256 a op).2 ≠ a := by
  rcases step_cases sha256 a op with ⟨-, hno⟩ | ⟨other, -, ⟨hready, -⟩ | ⟨-, fault, hstep⟩⟩
  · exact absurd hout (hno change)
  · exact absurd hready h
  · refine ⟨fault, congrArg Prod.fst hstep, fun hkept => ?_⟩
    rw [hstep] at hkept
    have hversion := congrArg Authority.stateVersion hkept
    dsimp only at hversion
    rw [stateVersion_apply] at hversion
    exact Nat.succ_ne_self _ hversion

/-- A new assignment is in force when it is issued, whatever its id was before. -/
theorem authorizes_of_assigned {issued : RoleAssignment}
    (hout : op.outcome a = .ok (.writes (.assignment issued))) :
    (step sha256 a op).2.Authorizes issued.assignmentId issued.issuedAt := by
  have hget : (a.apply (.assignment issued)).assignments.get? issued.assignmentId = some issued :=
    (Dict.get?_set _).trans (if_pos rfl)
  obtain ⟨hopen, hwindow⟩ := fits_of_outcome hout
  have hforce : inForce issued.issuedAt issued = true := by
    simp only [inForce, hopen, Option.isNone_none, Bool.and_eq_true, decide_eq_true_eq, true_and]
    exact ⟨Nat.le_refl _, hwindow⟩
  rcases step_cases sha256 a op with ⟨-, hno⟩ | ⟨change, hchange, hcase⟩
  · exact absurd hout (hno _)
  obtain rfl : Change.assignment issued = change := by
    rw [hout] at hchange
    cases hchange
    rfl
  rcases hcase with ⟨-, -, r, hafter, -⟩ | ⟨-, e, hstep⟩
  · rw [hafter]
    exact ⟨issued, hget, hforce⟩
  · rw [hstep]
    exact ⟨issued, hget, hforce⟩

/-! ## Runs -/

theorem sealed_of_init {bootstrapAdmin : Arg} {activities : List Arg}
    (h : init bootstrapAdmin activities = .ok a) : Sealed sha256 a := by
  simp only [init, bind_eq_ok] at h
  obtain ⟨name, -, names, -, h⟩ := h
  cases h
  exact ⟨rfl, fun i r hr => by simp at hr⟩

/-- **A run keeps its state under receipts exactly when all of its calls are receipted.** -/
theorem orderly_iff (sha256 : Bytes → Bytes) {bootstrapAdmin : Arg} {activities : List Arg}
    (hinit : init bootstrapAdmin activities = .ok a) (ops : List Op) :
    Orderly sha256 a ops ↔ ∀ e ∈ events (step sha256) a ops, Receipted e.before e.op := by
  constructor
  · intro h e he change hout
    have his : e.Is (step sha256) := is_of_mem_events he
    have hresult : (step sha256 e.before e.op).1 = e.result := congrArg Prod.fst his
    have hafter : (step sha256 e.before e.op).2 = e.after := congrArg Prod.snd his
    refine ⟨?_, ?_⟩
    · by_contra hready
      obtain ⟨fault, hfault, hmoved⟩ := (@not_unchanged_of_not_ready _ sha256) hout hready
      rw [hafter] at hmoved
      exact hmoved (h.unchanged e he fault (hresult.symm.trans hfault))
    · rintro issued rfl old hold
      by_contra hrevoked
      refine event_of_pairwise h.revoked e he issued.assignmentId
        ⟨old, hold, Option.isSome_iff_ne_none.mpr hrevoked⟩ issued.issuedAt ?_
      rw [← hafter]
      exact authorizes_of_assigned hout
  · intro h
    refine ⟨fun e he fault hfault => ?_, ?_, ?_, ?_⟩
    · have his : e.Is (step sha256) := is_of_mem_events he
      have hkept := unchanged_of_error (h e he) ((congrArg Prod.fst his).trans hfault)
      exact (congrArg Prod.snd his).symm.trans hkept
    · refine states_when (fun e hreceipted hs his => ?_) h (sealed_of_init hinit)
      have hafter : (step sha256 e.before e.op).2 = e.after := congrArg Prod.snd his
      rw [← hafter]
      exact hs.step hreceipted
    · intro b _ subject activity time hsubject hactivity hroot hknown
      exact hasActivity_eq_ok hsubject hactivity hroot hknown
    · have hchain := events_chain_when (I := fun _ => True)
        (R := fun b c : Authority => ∀ id, b.Revoked id → c.Revoked id)
        (fun _ _ _ hab hbc id hid => hbc id (hab id hid))
        (fun e hreceipted _ his => ⟨fun id hid => by
          have hafter : (step sha256 e.before e.op).2 = e.after := congrArg Prod.snd his
          rw [← hafter]
          exact hid.step hreceipted, trivial⟩) h trivial
      exact hchain.imp fun hkeep id hid time => (hkeep id hid).not_authorizes time

/-! ## A write without a receipt -/

theorem noon_years : 1 ≤ 2026 ∧ 2026 ≤ 9999 := by decide

theorem noon_months : 1 ≤ 1 ∧ 1 ≤ 12 := by decide

theorem noon_days : 1 ≤ 2 ∧ 2 ≤ daysIn 2026 1 := by decide

theorem noon_times : 12 ≤ 23 ∧ 0 ≤ 59 ∧ 0 ≤ 59 ∧ 0 ≤ 999999 := by decide

def noon : Datetime :=
  ⟨2026, 1, 2, 12, 0, 0, 0, noon_years, noon_months, noon_days, noon_times⟩

/-- The authority of `root`, as it starts. -/
def started : Authority where
  bootstrapAdmin := "root"
  activities := controlActivities.foldl (fun s name => s.insert name) ∅
  roles := .empty
  assignments := .empty
  receipts := []
  stateVersion := 1

theorem init_started : init (.text "root") [] = .ok started := by
  have hroot : identifier "bootstrap_admin" (.text "root") = .ok "root" :=
    identifier_eq_ok (by decide +kernel)
  simp only [init, hroot, bind, Except.bind]
  rfl

/-- `root` registers an activity. -/
def registering (ids : Nat → Except Fault Arg) : Op :=
  .registerActivity (.text "root") (.text "report.read") ⟨fun _ => .ok (some noon), ids⟩

theorem outcome_registering (ids : Nat → Except Fault Arg) :
    (registering ids).outcome started = .ok (.writes (.activity "report.read")) := by
  have hactivity : identifier "activity" (.text "report.read") = .ok "report.read" :=
    identifier_eq_ok (by decide +kernel)
  have hsubject : identifier "subject" (.text "root") = .ok "root" :=
    identifier_eq_ok (by decide +kernel)
  have hcontrol : identifier "activity" (.text "admin.activity.register") =
      .ok "admin.activity.register" := identifier_eq_ok (by decide +kernel)
  have hknown : started.activities.contains "admin.activity.register" = true := by decide +kernel
  have hnew : started.activities.contains "report.read" = false := by decide +kernel
  have hroot : "root" = started.bootstrapAdmin := rfl
  simp only [registering, Op.outcome, registerActivity, requireActivity, hasActivity, hactivity,
    hsubject, hcontrol, awareUtc, bind, Except.bind, pure, Except.pure, hknown, hnew, Bool.not_true,
    Bool.false_eq_true, if_false, if_pos hroot, raiseIf]

/-- The id that the receipt needs is there. -/
def receiptDrawn : Nat → Except Fault Arg := fun _ => .ok (.text "receipt")

/-- The factory raises. -/
def factoryFails : Nat → Except Fault Arg := fun _ => .error ⟨.foreign, "id_factory"⟩

theorem orderly_iff_registering : Orderly (fun _ => []) started [registering receiptDrawn] ↔
    ∀ e ∈ events (step (fun _ => [])) started [registering receiptDrawn],
      Receipted e.before e.op :=
  orderly_iff (fun _ => []) init_started [registering receiptDrawn]

/-- The activity is registered and the version has moved, and the call raised. -/
theorem registered_without_receipt : ¬ ∀ (sha256 : Bytes → Bytes) (bootstrapAdmin : Arg)
    (activities : List Arg) (a : Authority), init bootstrapAdmin activities = .ok a →
      ∀ ops, Orderly sha256 a ops := by
  intro h
  have horderly := h (fun _ => []) (.text "root") [] started init_started [registering factoryFails]
  have hready : ¬(registering factoryFails).Ready := by
    rintro ⟨-, id, hid, -⟩
    cases hid
  obtain ⟨fault, hfault, hmoved⟩ := (@not_unchanged_of_not_ready _ (fun _ => [])) (outcome_registering factoryFails) hready
  exact hmoved (horderly.unchanged _ List.mem_cons_self fault hfault)

end Authority

end LumaOS.Delegation
