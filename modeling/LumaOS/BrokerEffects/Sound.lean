import LumaOS.BrokerEffects.Store
import LumaOS.Base.Loop

/-!
# What every state of the journal satisfies

`Valid` is what `validate` accepts (`validate_eq_ok`). `Sound` holds of the disk at every system call
of `execute`: both journals are valid and keep a record of every effect dispatched, a completed
record tells of an effect that succeeded, and every effect was dispatched at its moment
(`Dispatch.Timely`), after those before it were completed (`Dispatch.Settles`).
-/

namespace LumaOS.BrokerEffects

open LumaOS.Base LumaOS.Json

/-! ## Valid journals -/

/-- **What `validate` accepts.** -/
structure Valid (j : Journal) : Prop where
  version : j.schemaVersion = 1
  records : j.records.length ≤ maxRecords
  root : ∀ r ∈ j.records, requestId r.requestId = true ∧ r.authenticatedUid = 0
  nodup : (j.records.map Record.requestId).Nodup
  settled : ∀ r ∈ j.records.dropLast, r.state ≠ .applying

theorem validateRecords_iff (count : Nat) : ∀ {rs : List Record} {k : Nat} {seen : List String},
    k + rs.length = count →
    ((∃ seen', (rs.zipIdx k).foldlM (validateRecord count) seen = .ok seen') ↔
      (∀ r ∈ rs, requestId r.requestId = true ∧ r.authenticatedUid = 0) ∧
        ((rs.map Record.requestId).Nodup ∧ ∀ r ∈ rs, r.requestId ∉ seen) ∧
          ∀ r ∈ rs.dropLast, r.state ≠ .applying)
  | [], k, seen, _ => by
    simp [pure_eq_ok]
  | r :: rs, k, seen, hcount => by
    rw [List.length_cons] at hcount
    have hnext : k + 1 + rs.length = count := by omega
    have hlast : (r.state = .applying → k + 1 = count) ↔ (rs ≠ [] → r.state ≠ .applying) := by
      cases rs with
      | nil => simp [← hcount]
      | cons s rs =>
        rw [List.length_cons] at hcount
        have hne : k + 1 ≠ count := by omega
        simp [hne]
    have hstep : ∀ seen', validateRecord count seen (r, k) = .ok seen' ↔
        (requestId r.requestId = true ∧ r.authenticatedUid = 0 ∧ r.requestId ∉ seen ∧
          (r.state = .applying → k + 1 = count)) ∧ r.requestId :: seen = seen' := by
      intro seen'
      simp only [validateRecord, bind_eq_ok, refuseIf_eq_ok, pure_eq_ok]
      simp
      tauto
    have hdrop : (∀ s ∈ (r :: rs).dropLast, s.state ≠ .applying) ↔
        (rs ≠ [] → r.state ≠ .applying) ∧ ∀ s ∈ rs.dropLast, s.state ≠ .applying := by
      cases rs with
      | nil => simp
      | cons s rs => simp
    rw [List.zipIdx_cons, List.foldlM_cons, hdrop, ← hlast]
    simp only [bind_eq_ok, hstep]
    constructor
    · rintro ⟨seen', _, ⟨⟨hid, huid, hnew, hend⟩, rfl⟩, hrest⟩
      obtain ⟨hall, ⟨hnodup, hout⟩, hdone⟩ := (validateRecords_iff count hnext).mp ⟨seen', hrest⟩
      simp only [List.mem_cons, not_or] at hout
      refine ⟨List.forall_mem_cons.mpr ⟨⟨hid, huid⟩, hall⟩, ⟨?_, ?_⟩, hend, hdone⟩
      · rw [List.map_cons, List.nodup_cons]
        refine ⟨fun hmem => ?_, hnodup⟩
        obtain ⟨s, hs, heq⟩ := List.mem_map.mp hmem
        exact (hout s hs).1 heq
      · exact List.forall_mem_cons.mpr ⟨hnew, fun s hs => (hout s hs).2⟩
    · rintro ⟨hall, ⟨hnodup, hout⟩, hend, hdone⟩
      rw [List.forall_mem_cons] at hall hout
      rw [List.map_cons, List.nodup_cons] at hnodup
      have hout' : ∀ s ∈ rs, s.requestId ∉ r.requestId :: seen := by
        intro s hs
        rw [List.mem_cons, not_or]
        refine ⟨fun heq => hnodup.1 ?_, hout.2 s hs⟩
        exact heq ▸ List.mem_map_of_mem hs
      obtain ⟨seen', hrest⟩ :=
        (validateRecords_iff count hnext).mpr ⟨hall.2, ⟨hnodup.2, hout'⟩, hdone⟩
      exact ⟨seen', _, ⟨⟨hall.1.1, hall.1.2, hout.1, hend⟩, rfl⟩, hrest⟩

theorem validate_eq_ok {j : Journal} : validate j = .ok () ↔ Valid j := by
  have hloop := @validateRecords_iff j.records.length j.records 0 [] (Nat.zero_add _)
  simp only [validate, bind_eq_ok, refuseIf_eq_ok, pure_eq_ok]
  constructor
  · rintro ⟨_, hbounds, seen, hseen, -⟩
    simp at hbounds
    obtain ⟨hroot, ⟨hnodup, -⟩, hsettled⟩ := hloop.mp ⟨seen, hseen⟩
    exact ⟨hbounds.1, hbounds.2, hroot, hnodup, hsettled⟩
  · intro h
    obtain ⟨seen, hseen⟩ := hloop.mpr ⟨h.root, ⟨h.nodup, by simp⟩, h.settled⟩
    exact ⟨(), by simp [h.version, h.records], seen, hseen, trivial⟩

/-- The journal with one more record. -/
def Journal.push (j : Journal) (r : Record) : Journal := { j with records := j.records ++ [r] }

/-- `journal.records[index].state = state`, of the record that was just pushed. -/
theorem setState_push (j : Journal) (r : Record) (state : State) :
    (j.push r).setState j.records.length state = j.push { r with state } := by
  have hlt : j.records.length < (j.records ++ [r]).length := by simp
  simp [Journal.push, Journal.setState, List.modify_eq_take_cons_drop hlt]

section Journals

variable {j : Journal} {r : Record}

/-- A record of a new request, on a journal where nothing is applying. -/
theorem Valid.push (h : Valid j) (hcount : j.records.length < maxRecords)
    (hid : requestId r.requestId = true) (huid : r.authenticatedUid = 0)
    (hnew : ∀ s ∈ j.records, s.requestId ≠ r.requestId)
    (hsettled : ∀ s ∈ j.records, s.state ≠ .applying) : Valid (j.push r) where
  version := h.version
  records := by
    simp only [Journal.push, List.length_append, List.length_singleton]
    omega
  root := by
    intro s hs
    rcases List.mem_append.mp hs with hs | hs
    · exact h.root s hs
    · obtain rfl := List.mem_singleton.mp hs
      exact ⟨hid, huid⟩
  nodup := by
    simp only [Journal.push, List.map_append, List.map_singleton]
    refine List.nodup_append.mpr ⟨h.nodup, List.nodup_singleton _, ?_⟩
    intro a ha b hb
    obtain ⟨s, hs, rfl⟩ := List.mem_map.mp ha
    rw [List.mem_singleton.mp hb]
    exact hnew s hs
  settled := by
    intro s hs
    rw [Journal.push, List.dropLast_concat] at hs
    exact hsettled s hs

end Journals

/-! ## Sound disks -/

/-- At the moment of the dispatch the durable journal ended with the request, as applying. -/
def Dispatch.Timely (d : Dispatch) : Prop :=
  d.journal.records.getLast? = some ⟨d.request, 0, d.action, .applying⟩ ∧
    ∀ r ∈ d.journal.records.dropLast, r.state ≠ .applying

/-- The first effect was durably recorded as completed when the second was dispatched. -/
def Dispatch.Settles (d d' : Dispatch) : Prop :=
  ⟨d.request, 0, d.action, .completed⟩ ∈ d'.journal.records

/-- The journal keeps what happened. -/
structure Keeps (dispatched : List Dispatch) (succeeded : List (String × Action)) (j : Journal) :
    Prop where
  valid : Valid j
  dispatched : ∀ x ∈ dispatched, ∃ r ∈ j.records, r.requestId = x.request ∧ r.action = x.action ∧
    r.state ≠ .notApplied
  completed : ∀ r ∈ j.records, r.state = .completed → (r.requestId, r.action) ∈ succeeded

/-- **The invariant of the disk**, since the effects of `past` were dispatched. -/
structure Sound (past : List Dispatch) (d : Disk) : Prop where
  past : past <+: d.dispatched
  visible : Keeps d.dispatched d.succeeded d.visible
  durable : Keeps d.dispatched d.succeeded d.durable
  timely : ∀ x ∈ d.dispatched, x.Timely
  settles : d.dispatched.Pairwise Dispatch.Settles
  nodup : (d.dispatched.map Dispatch.request).Nodup
  succeeded : ∀ p ∈ d.succeeded, ∃ x ∈ d.dispatched, (x.request, x.action) = p

theorem sound_initialized : Sound [] Disk.initialized := by
  have hkeeps : Keeps [] [] ⟨1, []⟩ := by
    refine ⟨⟨rfl, by simp, ?_, ?_, ?_⟩, ?_, ?_⟩ <;> simp
  exact ⟨List.nil_prefix, hkeeps, hkeeps, by simp [Disk.initialized], by simp [Disk.initialized],
    by simp [Disk.initialized], by simp [Disk.initialized]⟩

end LumaOS.BrokerEffects
