import LumaOS.Boot.Recovery

/-!
# Boot commands apply exactly once

The ledger only grows, holds one record for each generation and chains their hashes. A recorded
command is found again by its operation id, which no other record has, so that sending it again
returns its receipt and changes nothing, whatever has happened since. A different command with the
same id has another request digest, unless the two are a collision of SHA-256, and is refused.

`exactly_once` states this over every run, with the fences and the boot attempts.
-/

namespace LumaOS.Boot

open LumaOS.Base LumaOS.Text LumaOS.Json

variable {sha256 : Bytes → Vector UInt8 32} {s s' : BootState} {past : List Moment} {e : Moment}
  {c : BootCommand} {G : TransitionGuards}

/-! ## Commands and their bytes -/

/-- **The canonical bytes determine the command.** -/
theorem canonical_injective : Function.Injective BootCommand.canonical := by
  intro c c' h
  have h := toVec_injective h
  cases c
  cases c'
  simp only [BootCommand.document, Value.object.injEq, List.cons.injEq, Prod.mk.injEq,
    Value.string.injEq, Value.number.injEq, Value.array.injEq, true_and, and_true] at h
  obtain ⟨hartifact, hnonce, hobservation, hcheckpoint, hgeneration, hepoch, howner, hservices, hkind,
    hnew, hnewOwner, hid, htarget⟩ := h
  have hstring : Function.Injective (optional Value.string) :=
    optional_injective (fun _ _ h => Value.string.inj h) fun _ h => by cases h
  have hnumber : Function.Injective (optional Value.number) :=
    optional_injective (fun _ _ h => Value.number.inj h) fun _ h => by cases h
  have hslot : Function.Injective (optional fun n => Value.string (SlotName.value n)) :=
    optional_injective (fun _ _ h => SlotName.value_injective (Value.string.inj h))
      fun _ h => by cases h
  simp only [BootCommand.mk.injEq]
  exact ⟨CommandKind.value_injective hkind, hid, hgeneration, hepoch, howner, hslot htarget,
    optional_injective artifactDocument_injective (fun _ h => by cases h) hartifact,
    optional_injective checkpointDocument_injective (fun _ h => by cases h) hcheckpoint,
    List.map_injective_iff.mpr (fun _ _ h => Value.string.inj h) hservices, hstring hnonce,
    optional_injective observationDocument_injective (fun _ h => by cases h) hobservation,
    hnumber hnew, hstring hnewOwner⟩

/-- Two byte strings with one digest. -/
def Collision (sha256 : Bytes → Vector UInt8 32) (b b' : Bytes) : Prop :=
  b ≠ b' ∧ hexdigest sha256 b = hexdigest sha256 b'

/-! ## Records are found again -/

theorem find?_operation {records : List OperationRecord} {r : OperationRecord}
    (hnodup : (records.map OperationRecord.operationId).Nodup) (hr : r ∈ records) :
    records.find? (fun x => x.operationId == r.operationId) = some r := by
  induction records with
  | nil => cases hr
  | cons x records ih =>
    rw [List.map_cons, List.nodup_cons] at hnodup
    rcases List.mem_cons.mp hr with rfl | hr
    · simp
    · have hne : x.operationId ≠ r.operationId := fun he =>
        hnodup.1 (he ▸ List.mem_map_of_mem hr)
      rw [List.find?_cons_of_neg (by simpa using hne)]
      exact ih hnodup.2 hr

/-- A record on file decides what its operation id gives. -/
theorem transition_of_record {r : OperationRecord} (hs : s.Sound sha256) (hr : r ∈ s.operations)
    (hid : r.operationId = c.operationId) :
    transition sha256 s c G = authenticate sha256 s G >>= fun _ => replay sha256 s c r := by
  have hfind := find?_operation hs.wellFormed.ledger.nodup hr
  rw [hid] at hfind
  unfold transition
  rw [hfind]

theorem authenticate_of_trusted (h : Trusted sha256 G s) : authenticate sha256 s G = .ok () := by
  rw [authenticate, h.authentic, h.current]
  rfl

/-- **The recorded command again**: its receipt, and nothing changed. -/
theorem transition_replays {r : OperationRecord} (hs : s.Sound sha256) (hr : r ∈ s.operations)
    (hid : r.operationId = c.operationId) (hkind : r.kind = c.kind)
    (hdigest : r.requestSha256 = c.requestSha256 sha256) (h : Trusted sha256 G s) :
    transition sha256 s c G = .ok ⟨s, ⟨r.operationId, r.kind, r.appliedGeneration, r.outcome, true⟩,
      none⟩ := by
  rw [transition_of_record hs hr hid, authenticate_of_trusted h, replay, hkind, hdigest]
  simp [raiseIf, bind, Except.bind, pure, Except.pure]

/-- **Another command with the id**: refused. -/
theorem transition_conflicts {r : OperationRecord} (hs : s.Sound sha256) (hr : r ∈ s.operations)
    (hid : r.operationId = c.operationId) (hdigest : r.requestSha256 ≠ c.requestSha256 sha256) :
    ∃ x, transition sha256 s c G = .error x := by
  rw [transition_of_record hs hr hid]
  cases authenticate sha256 s G with
  | error x => exact ⟨x, rfl⟩
  | ok u =>
    refine ⟨⟨.idempotencyConflict, "operation_id was already used by a different request"⟩, ?_⟩
    simp [replay, raiseIf, bind, Except.bind, hdigest]

/-! ## What only grows -/

/-- The tokens that have owned the fence, the current one last. -/
def BootState.owners (s : BootState) : List String := s.retiredFenceOwnerTokens ++ [s.fenceOwnerToken]

/-- The ledger is appended to, and a fence epoch is added with each owner. -/
structure Continues (s t : BootState) : Prop where
  records : s.operations <+: t.operations
  owners : s.owners <+: t.owners
  epochs : t.fenceEpoch - t.owners.length = s.fenceEpoch - s.owners.length

theorem Continues.refl (s : BootState) : Continues s s :=
  ⟨List.prefix_rfl, List.prefix_rfl, rfl⟩

theorem Continues.trans {t u : BootState} (h : Continues s t) (h' : Continues t u) :
    Continues s u :=
  ⟨h.records.trans h'.records, h.owners.trans h'.owners, h'.epochs.trans h.epochs⟩

theorem step_continues (h : Step G s c s') : s.owners <+: s'.owners ∧
    s'.fenceEpoch - s'.owners.length = s.fenceEpoch - s.owners.length := by
  cases h with
  | rotate _ _ _ _ next =>
    refine ⟨List.prefix_append _ _, ?_⟩
    simp only [BootState.owners, List.length_append, List.length_cons, List.length_nil, next]
    omega
  | _ => exact ⟨List.prefix_rfl, rfl⟩

theorem happens_continues (h : Happens sha256 e) : Continues e.before e.after := by
  cases h with
  | nothing _ hsame =>
    rw [hsame]
    exact Continues.refl _
  | applied _ _ hstep heq =>
    obtain ⟨howners, hepochs⟩ := step_continues hstep
    rw [heq]
    exact ⟨List.prefix_append _ _, howners, hepochs⟩

/-- One owner token names one epoch. -/
theorem Continues.epoch {t : BootState} (h : Continues s t) (ht : t.Sound sha256)
    (hsame : s.fenceOwnerToken = t.fenceOwnerToken) : s.fenceEpoch = t.fenceEpoch := by
  have hnodup : t.owners.Nodup := by
    refine List.nodup_append.mpr ⟨ht.wellFormed.fence.nodup, List.nodup_singleton _, ?_⟩
    intro a ha b hb heq
    rw [List.mem_singleton.mp hb] at heq
    exact ht.wellFormed.fence.fresh (heq ▸ ha)
  obtain ⟨later, hlater⟩ := h.owners
  -- the last owner is not among those before it, so nothing was added
  have hnil : later = [] := by
    rcases List.eq_nil_or_concat' later with hnil | ⟨init, last, rfl⟩
    · exact hnil
    · rw [← List.append_assoc] at hlater
      have hlast : last = t.fenceOwnerToken :=
        (List.cons.inj (List.append_inj' hlater rfl).2).1
      rw [← hlater] at hnodup
      have hmem : s.fenceOwnerToken ∈ s.owners ++ init :=
        List.mem_append_left _ (List.mem_append_right _ List.mem_cons_self)
      exact absurd (hsame.trans hlast.symm)
        ((List.nodup_append.mp hnodup).2.2 _ hmem last List.mem_cons_self)
  have hlength : t.owners.length = s.owners.length := by
    rw [← hlater, hnil, List.append_nil]
  have := h.epochs
  omega

/-! ## Whole runs -/

theorem run_continues {E : Enrollment} (h : initialBootState E G = .ok s) (requests : List Request) :
    (reached sha256 s requests).Pairwise Continues :=
  events_chain (anyRequest requests) (I := BootState.Sound sha256) (R := Continues)
    (fun _ _ _ => Continues.trans)
    (fun _ _ hs his => ⟨happens_continues (happens_of_is hs his).1, (happens_of_is hs his).2⟩)
    (initial_enrolled h).sound

/-- The generation is the number of records. -/
theorem generation_eq_length (hs : s.Sound sha256) : s.generation = s.operations.length := by
  have hcovers := congrArg List.length hs.wellFormed.ledger.covers
  have := (isNonnegative_iff.mp hs.wellFormed.generation).1
  simp only [generations, List.length_map, List.length_range] at hcovers
  omega

/-- The nonces of the first boots of a run differ. -/
theorem run_nonces {E : Enrollment} (h : initialBootState E G = .ok s) (requests : List Request) :
    ((events (react sha256) s requests).filterMap Moment.firstBootNonce).Nodup := by
  rcases List.eq_nil_or_concat' (events (react sha256) s requests) with hnil | ⟨past, e, hlast⟩
  · rw [hnil]
    exact List.nodup_nil
  · obtain ⟨hs, hstory, hhappens, hafter⟩ := run_story h requests hlast
    rw [hlast, ← (story_step hs hstory hhappens).nonces]
    exact hafter.wellFormed.nonces.2

/-- A command of another fence or generation changes nothing. -/
theorem unbound_unchanged (hs : s.Sound sha256) (hc : c.Fine)
    (h : ¬(c.fenceEpoch = s.fenceEpoch ∧ c.fenceOwnerToken = s.fenceOwnerToken) ∨
      c.expectedGeneration ≠ s.generation) {r : TransitionResult}
    (hr : transition sha256 s c G = .ok r) : r.state = s ∧ r.anchorUpdate = none := by
  have hgives := transition_gives (G := G) hs hc
  rw [hr] at hgives
  rcases hgives with ⟨record, -, -, -, -, rfl⟩ | ⟨happlied, -⟩
  · exact ⟨rfl, rfl⟩
  · rcases h with h | h
    · exact absurd happlied.fence h
    · exact absurd happlied.generation h

/-- **Boot commands apply exactly once under fencing.** -/
theorem exactly_once (sha256 : Bytes → Vector UInt8 32) (E : Enrollment) (G : TransitionGuards)
    (s : BootState) (h : initialBootState E G = .ok s) (requests : List Request) :
    (∀ past e rest, events (react sha256) s requests = past ++ e :: rest →
      ∀ c r, Moment.applied e = some c → e.result = .ok r →
        ∀ t ∈ e.after :: rest.map Event.after,
          (∀ G', Trusted sha256 G' t →
            transition sha256 t c G' = .ok ⟨t, { r.receipt with replayed := true }, none⟩) ∧
          ∀ raw c' G', BootCommand.postInit raw = .ok c' → c'.operationId = c.operationId →
            c' ≠ c → (∃ x, transition sha256 t c' G' = .error x) ∨
              Collision sha256 c'.canonical c.canonical) ∧
    (∀ t ∈ reached sha256 s requests, t.generation = t.operations.length ∧
      chained chainOrigin t.operations = true ∧
      ∀ record ∈ t.operations, record.recordSha256 = record.digest sha256) ∧
    (reached sha256 s requests).Pairwise (fun t t' => t.operations <+: t'.operations ∧
      (t.fenceOwnerToken = t'.fenceOwnerToken → t.fenceEpoch = t'.fenceEpoch)) ∧
    ((events (react sha256) s requests).filterMap Moment.firstBootNonce).Nodup ∧
    ∀ t ∈ reached sha256 s requests, ∀ raw c, BootCommand.postInit raw = .ok c →
      (¬(c.fenceEpoch = t.fenceEpoch ∧ c.fenceOwnerToken = t.fenceOwnerToken) ∨
        c.expectedGeneration ≠ t.generation) →
      ∀ G' r, transition sha256 t c G' = .ok r → r.state = t ∧ r.anchorUpdate = none := by
  have hsound : ∀ t ∈ reached sha256 s requests, t.Sound sha256 := reached_sound h requests
  have hchain : (reached sha256 s requests).Pairwise Continues := run_continues h requests
  refine ⟨fun past e rest he c r hc hr t ht => ?_, fun t ht => ?_, ?_, run_nonces h requests,
    fun t ht raw c hc hbound G' r hr => unbound_unchanged (hsound t ht) (postInit_fine hc) hbound hr⟩
  · obtain ⟨-, -, hhappens, hafter⟩ := run_story h requests he
    have hreached : reached sha256 s requests =
        (s :: past.map Event.after) ++ e.after :: rest.map Event.after := by
      rw [reached, he, List.map_append, List.map_cons, List.cons_append]
    have htsound : t.Sound sha256 := hsound t (by rw [hreached]; exact List.mem_append_right _ ht)
    have hkept : e.after.operations <+: t.operations := by
      rcases List.mem_cons.mp ht with rfl | ht
      · exact List.prefix_rfl
      · rw [hreached] at hchain
        exact ((List.pairwise_cons.mp (List.pairwise_append.mp hchain).2.1).1 t ht).records
    cases hhappens with
    | nothing hnone => cases hnone.symm.trans hc
    | @applied c₀ changed outcome hcommand _ _ heq _ _ _ hreply =>
      cases hcommand.symm.trans hc
      obtain ⟨r₀, hr₀, hreceipt⟩ := hreply
      cases hr₀.symm.trans hr
      have hrecord : appliedRecord sha256 e.before c outcome ∈ t.operations := by
        refine hkept.subset ?_
        rw [heq]
        exact List.mem_append_right _ List.mem_cons_self
      refine ⟨fun G' htrusted => ?_, fun raw c' G' _ hid hne => ?_⟩
      · rw [transition_replays htsound hrecord rfl rfl rfl htrusted, hreceipt]
        rfl
      · by_cases hdigest : c'.requestSha256 sha256 = c.requestSha256 sha256
        · exact Or.inr ⟨fun hbytes => hne (canonical_injective hbytes), hdigest⟩
        · exact Or.inl (transition_conflicts htsound hrecord hid.symm (Ne.symm hdigest))
  · have hs := hsound t ht
    exact ⟨generation_eq_length hs, hs.wellFormed.ledger.chained, fun record hr =>
      (recordCheck_eq_ok.mp (hs.recordsChecked record hr)).2.2.2.2.2.2⟩
  · refine hchain.imp_of_mem fun _ ht' hcontinues => ⟨hcontinues.records, ?_⟩
    exact hcontinues.epoch (hsound _ ht')

theorem exactly_once_enrolled : ∃ s, initialBootState .sample .sample = .ok s ∧
    ∀ (sha256 : Bytes → Vector UInt8 32) (requests : List Request),
      ((events (react sha256) s requests).filterMap Moment.firstBootNonce).Nodup := by
  obtain ⟨s, hs⟩ := Enrollment.sample_fine.succeeds
  exact ⟨s, hs, fun sha256 requests =>
    (exactly_once sha256 .sample .sample s hs requests).2.2.2.1⟩

end LumaOS.Boot
