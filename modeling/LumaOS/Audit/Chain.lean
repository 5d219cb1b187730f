import LumaOS.Audit.Journal
import LumaOS.Base.HashChain
import LumaOS.Base.Loop
import LumaOS.Json.Injective

/-!
# The head of a journal determines the journal

`admin_journal::head` is a hash chain over the entries (`head_eq_ok`), with the deployment as its
key and the position in each digest. When SHA-256 and the extension are collision-free, a head
belongs to one journal (`head_inj`): the deployment is canonical hexadecimal, the bytes of an entry
determine it, and the two domain tags keep the genesis apart from every entry.
-/

namespace LumaOS.Audit

open LumaOS.Base LumaOS.Text LumaOS.Json

variable {D : Type} {H : Hashing D}

/-- What is assumed of the hash. -/
structure Hashing.CollisionFree (H : Hashing D) : Prop where
  sha256 : Function.Injective H.sha256
  extend : Function.Injective2 H.extendValue

/-- The chain behind `head`: deployments as bytes, and entries. -/
def chain (H : Hashing D) : Chain D Bytes Entry where
  start := H.zero
  extend := H.extendValue
  genesis deployment := H.sha256 (domainTag "luma-native-admin-genesis-v1" ++ deployment)
  digest deployment position entry := H.sha256 (domainTag "luma-native-admin-audit-v1" ++
    deployment ++ be64 position ++ toVec entry.toJson)

/-- The checks of `head` on one entry. -/
structure Entry.Valid (e : Entry) : Prop where
  requestId : textId e.requestId = true
  activity : textId e.activity = true
  lower : ¬ e.authenticatedUid < 1000
  upper : ¬ e.authenticatedUid ≥ 65534
  payload : ∃ bytes, decode 32 e.payloadSha256 = .ok bytes

/-! ## What `head` computes -/

theorem entryDigest_eq_ok {domain : String} {k : Bytes} (hk : decode 32 domain = .ok k) {n : Nat}
    {e : Entry} {d : D} : entryDigest H domain n e = .ok d ↔ d = (chain H).digest k n e := by
  simp only [entryDigest, bind_eq_ok, pure_eq_ok]
  constructor
  · rintro ⟨k', hk', rfl⟩
    rw [hk] at hk'
    cases hk'
    rfl
  · rintro rfl
    exact ⟨k, hk, rfl⟩

theorem headStep_eq_ok {deployment : String} {k : Bytes} (hk : decode 32 deployment = .ok k)
    {past : List Entry} {e : Entry} {s : List Entry × D} :
    headStep H deployment (past, (chain H).head k past) e = .ok s ↔
      (e.Valid ∧ ∀ y ∈ past, y.requestId ≠ e.requestId) ∧
        s = (past ++ [e], (chain H).head k (past ++ [e])) := by
  simp only [headStep, bind_eq_ok, refuseIf_eq_ok, Bool.or_eq_false_iff, Bool.not_eq_false',
    List.any_eq_false, beq_iff_eq, decide_eq_false_iff_not, entryDigest_eq_ok hk, pure_eq_ok,
    Chain.head_concat]
  constructor
  · rintro ⟨_, ⟨⟨⟨⟨hid, hact⟩, hfresh⟩, hlo⟩, hhi⟩, bytes, hbytes, d, rfl, rfl⟩
    exact ⟨⟨⟨hid, hact, hlo, hhi, bytes, hbytes⟩, hfresh⟩, rfl⟩
  · rintro ⟨⟨⟨hid, hact, hlo, hhi, bytes, hbytes⟩, hfresh⟩, rfl⟩
    exact ⟨(), ⟨⟨⟨⟨hid, hact⟩, hfresh⟩, hlo⟩, hhi⟩, bytes, hbytes, _, rfl, rfl⟩

/-- **`head` accepts well-formed journals and returns the chain's value.** -/
theorem head_eq_ok {j : Journal} {v : D} : j.head H = .ok v ↔
    j.schemaVersion = 1 ∧ ¬ j.entries.length > maxEvents ∧ (∀ e ∈ j.entries, e.Valid) ∧
      j.entries.Pairwise (fun (a b : Entry) => a.requestId ≠ b.requestId) ∧
      ∃ k, decode 32 j.deployment = .ok k ∧ v = (chain H).head k j.entries := by
  have hloop : ∀ {k : Bytes}, decode 32 j.deployment = .ok k → ∀ s,
      (j.entries.foldlM (headStep H j.deployment) ([], (chain H).head k []) = .ok s ↔
        (∀ e ∈ j.entries, e.Valid) ∧
        ([] ++ j.entries).Pairwise (fun (a b : Entry) => a.requestId ≠ b.requestId) ∧
        s = ([] ++ j.entries, (chain H).head k ([] ++ j.entries))) := fun {k} hk s =>
    foldlM_pairwise (S := fun past => (past, (chain H).head k past))
      (fun _ _ _ _ _ => headStep_eq_ok hk) j.entries [] s nofun .nil
  simp only [Journal.head, genesis, bind_eq_ok, refuseIf_eq_ok, Bool.or_eq_false_iff,
    bne_eq_false_iff_eq, decide_eq_false_iff_not, pure_eq_ok]
  constructor
  · rintro ⟨_, ⟨hschema, hlen⟩, k, hk, _, ⟨k', hk', rfl⟩, s, hs, rfl⟩
    rw [hk] at hk'
    cases hk'
    obtain ⟨hvalid, hfresh, rfl⟩ := (hloop hk s).mp hs
    exact ⟨hschema, hlen, hvalid, hfresh, k, hk, rfl⟩
  · rintro ⟨hschema, hlen, hvalid, hfresh, k, hk, rfl⟩
    exact ⟨(), ⟨hschema, hlen⟩, k, hk, _, ⟨k, hk, rfl⟩, _,
      (hloop hk _).mpr ⟨hvalid, hfresh, rfl⟩, rfl⟩

/-- One more entry extends the head by its digest. -/
theorem head_push {j : Journal} {e : Entry} {before after d : D} (hj : j.head H = .ok before)
    (hnext : (j.push e).head H = .ok after)
    (hd : entryDigest H j.deployment j.entries.length e = .ok d) :
    after = H.extendValue before d := by
  obtain ⟨-, -, -, -, k, hk, rfl⟩ := head_eq_ok.mp hj
  obtain ⟨-, -, -, -, k', hk', rfl⟩ := head_eq_ok.mp hnext
  rw [show (j.push e).deployment = j.deployment from rfl, hk] at hk'
  cases hk'
  rw [(entryDigest_eq_ok hk).mp hd, Journal.push, Chain.head_concat]
  rfl

/-- The check of `publication` on the two files. -/
theorem push_of_successor {j q : Journal} {v w : D} (hj : j.head H = .ok v)
    (hq : q.head H = .ok w) (hdep : q.deployment = j.deployment)
    (hlen : q.entries.length = j.entries.length + 1) (hpre : j.entries <+: q.entries) :
    ∃ e, q = j.push e := by
  obtain ⟨rest, hrest⟩ := hpre
  have hone : rest.length = 1 := by
    rw [← hrest, List.length_append] at hlen
    omega
  obtain ⟨e, rfl⟩ := List.length_eq_one_iff.mp hone
  obtain ⟨hs, -⟩ := head_eq_ok.mp hj
  obtain ⟨hs', -⟩ := head_eq_ok.mp hq
  refine ⟨e, ?_⟩
  obtain ⟨schema, deployment, entries⟩ := q
  rw [Journal.push, hs, hrest, ← hdep]
  exact congrArg (Journal.mk · deployment entries) hs'

/-! ## What it determines -/

theorem clock_toJson_inj {c c' : Clock} (h : c.toJson = c'.toJson) : c = c' := by
  simp only [Clock.toJson, Value.object.injEq, List.cons.injEq, Prod.mk.injEq, Value.number.injEq,
    Int.natCast_inj, UInt64.toNat_inj, UInt32.toNat_inj, true_and, and_true] at h
  cases c
  cases c'
  obtain ⟨rfl, rfl, rfl⟩ := h
  rfl

theorem entry_toJson_inj : Function.Injective Entry.toJson := by
  intro e e' h
  simp only [Entry.toJson, Value.object.injEq, List.cons.injEq, Prod.mk.injEq, Value.number.injEq,
    Value.string.injEq, Int.natCast_inj, UInt32.toNat_inj, true_and, and_true] at h
  obtain ⟨hid, huid, hclock, hact, hpay⟩ := h
  have hclock := clock_toJson_inj hclock
  cases e
  cases e'
  cases hid
  cases huid
  cases hclock
  cases hact
  cases hpay
  rfl

/-- The two domain tags differ in their nineteenth byte. -/
theorem tags_separated (k r : Bytes) : domainTag "luma-native-admin-genesis-v1" ++ k ≠
    domainTag "luma-native-admin-audit-v1" ++ r := by
  intro h
  have hbyte : (domainTag "luma-native-admin-genesis-v1" ++ k)[18]? =
      (domainTag "luma-native-admin-audit-v1" ++ r)[18]? := by rw [h]
  rw [List.getElem?_append_left (by decide), List.getElem?_append_left (by decide)] at hbyte
  revert hbyte
  decide

theorem chain_collisionFree (hc : H.CollisionFree) : (chain H).CollisionFree where
  extend := hc.extend
  genesis _ _ h := List.append_cancel_left (hc.sha256 h)
  digest _ _ _ _ h :=
    entry_toJson_inj (toVec_injective (List.append_cancel_left (hc.sha256 h)))
  separated k k' n e h := by
    have h := hc.sha256 h
    rw [List.append_assoc, List.append_assoc] at h
    exact tags_separated k _ h

/-- **A head belongs to one journal.** -/
theorem head_inj (hc : H.CollisionFree) {j j' : Journal} {v : D} (h : j.head H = .ok v)
    (h' : j'.head H = .ok v) : j = j' := by
  obtain ⟨hs, -, -, -, k, hk, rfl⟩ := head_eq_ok.mp h
  obtain ⟨hs', -, -, -, k', hk', heq⟩ := head_eq_ok.mp h'
  obtain ⟨rfl, hentries⟩ := Chain.head_inj (chain_collisionFree hc) heq
  have hdep := decode_inj hk hk'
  cases j
  cases j'
  cases hs
  cases hs'
  cases hdep
  cases hentries
  rfl

end LumaOS.Audit
