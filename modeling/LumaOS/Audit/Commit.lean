import LumaOS.Audit.Chain

/-!
# The journal and the TPM stay reconcilable

Two levels. `Move` is the commit protocol: a settled journal gets a proposal, the TPM commits to it
once it is durable, and a committed proposal replaces the journal; a power loss goes back to what is
durable. The code refines it: whatever replies a call sees and wherever it is cut off, the platform
it leaves is reached by moves (`ends_append`, `ends_publish`), and an append commits at most its own
entry. Every platform that moves reach from a provisioned one is `Settled` or `Fenced`, also as a
power loss would leave it (`Recoverable`).

**`journal_reconcilable`** adds that the TPM value belongs to one journal, the committed one: it is
one of the two files, the published journal is a prefix of it, and later runs only append to it, in
the order in which the entries were requested.
-/

namespace LumaOS.Audit

open LumaOS.Base LumaOS.Text LumaOS.Json
open LumaOS.Base.Mut (exec)

variable {D : Type}

/-! ## The commit protocol -/

/-- No proposal, and the TPM holds the head of the journal. -/
def Settled (H : Hashing D) (d : Directory) (tpm : D) : Prop :=
  ∃ j : Journal, d = ⟨some j.bytes, none⟩ ∧ j.head H = .ok tpm

/-- A proposal of exactly one more entry, and the TPM holds the head of one of the two files. -/
def Fenced (H : Hashing D) (d : Directory) (tpm : D) : Prop :=
  ∃ (j : Journal) (e : Entry) (before after : D), d = ⟨some j.bytes, some (j.push e).bytes⟩ ∧
    j.head H = .ok before ∧ (j.push e).head H = .ok after ∧ (tpm = before ∨ tpm = after)

/-- One step of the protocol, with the entries it commits. -/
inductive Move (H : Hashing D) : Platform D → List Entry → Platform D → Prop
  | propose {p : Platform D} {j : Journal} {e : Entry} {after : D} :
      p.current = ⟨some j.bytes, none⟩ → j.head H = .ok p.tpm → (j.push e).head H = .ok after →
      Move H p [] { p with current := ⟨some j.bytes, some (j.push e).bytes⟩ }
  | commit {p : Platform D} {j : Journal} {e : Entry} {after : D} :
      p.current = ⟨some j.bytes, some (j.push e).bytes⟩ → p.durable = p.current →
      j.head H = .ok p.tpm → (j.push e).head H = .ok after → Move H p [e] { p with tpm := after }
  | publish {p : Platform D} {j : Journal} :
      p.current.pending = some j.bytes → j.head H = .ok p.tpm →
      Move H p [] { p with current := ⟨some j.bytes, none⟩ }
  | writeBack {p : Platform D} : Move H p [] { p with durable := p.current }
  | powerLoss {p : Platform D} : Move H p [] { p with current := p.durable }

/-- Any number of moves. -/
inductive Moves (H : Hashing D) : Platform D → List Entry → Platform D → Prop
  | refl {p : Platform D} : Moves H p [] p
  | tail {p q r : Platform D} {l m : List Entry} :
      Moves H p l q → Move H q m r → Moves H p (l ++ m) r

/-- What is in the directory can be brought back in line with the TPM, also after a power loss. -/
structure Recoverable (H : Hashing D) (p : Platform D) : Prop where
  current : Settled H p.current p.tpm ∨ Fenced H p.current p.tpm
  durable : Settled H p.durable p.tpm ∨ Fenced H p.durable p.tpm

variable {H : Hashing D} {p q r : Platform D} {l m : List Entry}

theorem Moves.single (h : Move H p l q) : Moves H p l q := Moves.tail .refl h

theorem Moves.trans (h : Moves H p l q) (h' : Moves H q m r) : Moves H p (l ++ m) r := by
  induction h' with
  | refl =>
    rw [List.append_nil]
    exact h
  | tail _ hmove ih =>
    rw [← List.append_assoc]
    exact ih.tail hmove

theorem Move.recoverable (hp : Recoverable H p) (h : Move H p l q) : Recoverable H q := by
  cases h with
  | propose hcur hj hnext =>
    exact ⟨Or.inr ⟨_, _, _, _, rfl, hj, hnext, Or.inl rfl⟩, hp.durable⟩
  | @commit j e after hcur hdur hj hnext =>
    have hfenced : Fenced H p.current after := ⟨j, e, p.tpm, after, hcur, hj, hnext, Or.inr rfl⟩
    exact ⟨Or.inr hfenced, Or.inr (hdur ▸ hfenced)⟩
  | publish hpend hj => exact ⟨Or.inl ⟨_, rfl, hj⟩, hp.durable⟩
  | writeBack => exact ⟨hp.current, hp.current⟩
  | powerLoss => exact ⟨hp.durable, hp.durable⟩

theorem Moves.recoverable (hp : Recoverable H p) (h : Moves H p l q) : Recoverable H q := by
  induction h with
  | refl => exact hp
  | tail _ hmove ih => exact hmove.recoverable ih

/-- The committed journal only grows, by what the moves commit. -/
theorem Moves.committed (hc : H.CollisionFree) (h : Moves H p l q) {j : Journal}
    (hj : j.head H = .ok p.tpm) :
    ({ j with entries := j.entries ++ l } : Journal).head H = .ok q.tpm := by
  induction h with
  | refl =>
    rw [List.append_nil]
    exact hj
  | @tail q r l m _ hmove ih =>
    cases hmove with
    | @commit j' e after hcur hdur hj' hnext =>
      rw [← head_inj hc ih hj', Journal.push, List.append_assoc] at hnext
      exact hnext
    | _ =>
      rw [List.append_nil]
      exact ih

/-- In a recoverable platform the TPM holds the head of a journal that is one of the files, and the
journal file is a prefix of it. -/
theorem committed_of_recoverable {d : Directory} {tpm : D}
    (h : Settled H d tpm ∨ Fenced H d tpm) : ∃ committed : Journal,
      committed.head H = .ok tpm ∧
      (d.journal = some committed.bytes ∨ d.pending = some committed.bytes) ∧
      ∃ j : Journal, d.journal = some j.bytes ∧ j.entries <+: committed.entries := by
  obtain ⟨j, rfl, hj⟩ | ⟨j, e, before, after, rfl, hj, hnext, rfl | rfl⟩ := h
  · exact ⟨j, hj, Or.inl rfl, j, rfl, List.prefix_refl _⟩
  · exact ⟨j, hj, Or.inl rfl, j, rfl, List.prefix_refl _⟩
  · exact ⟨j.push e, hnext, Or.inr rfl, j, rfl, List.prefix_append _ _⟩

/-! ## What the calls look at and write -/

section Contracts

variable {name : FileName} {store : Store}

theorem reads_privateRead {limit : Nat} :
    Reads (privateRead name limit) p fun bytes => p.current.file name = some bytes :=
  reads_call fun _ => Mut.spec_bind_get (Mut.spec_bind_lift fun _ hfile =>
    Mut.spec_bind_lift fun _ _ => ⟨rfl, okOr_eq_ok.mp hfile⟩)

theorem reads_hasPending : Reads hasPending p fun fenced => fenced = p.current.pending.isSome :=
  reads_call fun _ => Mut.spec_bind_get ⟨rfl, rfl⟩

theorem reads_anchorRead : Reads anchorRead p fun value => value = p.tpm :=
  reads_call fun _ => Mut.spec_bind_get ⟨rfl, rfl⟩

theorem reads_anchorClock : Reads anchorClock p fun _ => True := reads_call fun _ => ⟨rfl, trivial⟩

theorem reads_syncPending : Reads syncPending p fun _ => True :=
  reads_call fun _ => Mut.spec_bind_get (Mut.spec_bind_lift fun _ _ => ⟨rfl, trivial⟩)

theorem reads_authorize : Reads authorize p fun _ => True := reads_call fun _ => ⟨rfl, trivial⟩

/-- Only bytes that this code writes are accepted. -/
theorem reads_readJournal : Reads (readJournal H name) p fun found =>
    found.2 = found.1.bytes ∧ p.current.file name = some found.1.bytes := by
  refine Reads.bind reads_privateRead fun bytes hfile => ?_
  refine reads_bind_lift fun j _ => reads_bind_lift fun _ hbytes => reads_pure ?_
  rw [refuseIf_eq_ok, bne_eq_false_iff_eq] at hbytes
  exact ⟨hbytes.symm, hbytes ▸ hfile⟩

/-- The directory of a journal without a proposal. -/
theorem current_of_files {d : Directory} {bytes : Bytes} {fenced : Bool}
    (hfile : d.file .journal = some bytes) (hfenced : fenced = d.pending.isSome)
    (h : fenced = false) : d = ⟨some bytes, none⟩ := by
  obtain ⟨journal, pending⟩ := d
  rw [h] at hfenced
  cases pending with
  | none => exact congrArg (Directory.mk · none) hfile
  | some b => cases hfenced

variable {E : Platform D → Prop}

theorem ends_syncDirectory (h : E p) (h' : E { p with durable := p.current }) :
    Ends syncDirectory p (fun _ p' => p' = { p with durable := p.current }) E :=
  ends_modify h h'

theorem ends_writePending {bytes : Bytes} {d : Directory}
    (hd : { p.current with pending := some bytes } = d) (h : E p) (h' : E { p with current := d })
    (h'' : E { p with current := d, durable := d }) :
    Ends (writePending bytes) p (fun _ p' => p' = { p with current := d, durable := d }) E := by
  subst hd
  refine Reads.ends_bind (P := fun _ => True) (reads_call fun _ => Mut.spec_pure ⟨rfl, trivial⟩) h
    fun _ _ => ?_
  refine ends_bind (ends_modify h h') ?_
  rintro _ _ rfl
  exact ends_syncDirectory h' h''

theorem ends_renamePending {bytes : Bytes} (hbytes : p.current.pending = some bytes) (h : E p)
    (h' : E { p with current := ⟨some bytes, none⟩ }) : Ends renamePending p
      (fun _ p' => p' = { p with current := ⟨some bytes, none⟩ }) E := by
  refine ends_call h fun _ => Mut.spec_bind_get (Mut.spec_bind_lift fun found hfound => ?_)
  rw [okOr_eq_ok, hbytes] at hfound
  cases hfound
  exact Mut.spec_set ⟨rfl, h'⟩

variable [DecidableEq D]

/-- **`Store::open` succeeds only on a settled journal**, and returns it. -/
theorem reads_open : Reads (Store.open H) p fun store =>
    p.current = ⟨some store.journal.bytes, none⟩ ∧ store.journal.head H = .ok p.tpm := by
  refine Reads.bind reads_readJournal fun found hfound => reads_bind_lift fun head hhead => ?_
  refine Reads.bind reads_anchorRead fun value hvalue => reads_bind_lift fun _ hsame => ?_
  refine Reads.bind reads_hasPending fun fenced hfenced => reads_bind_lift fun _ hnone => ?_
  rw [refuseIf_eq_ok] at hsame hnone
  rw [bne_eq_false_iff_eq] at hsame
  refine reads_pure ⟨current_of_files hfound.2 hfenced hnone, ?_⟩
  rw [← hvalue, hsame]
  exact hhead

/-- `Store::status` succeeds only on a settled journal that is the store's own. -/
theorem reads_status (hc : H.CollisionFree) : Reads (store.status H) p fun _ =>
    p.current = ⟨some store.journal.bytes, none⟩ ∧ store.journal.head H = .ok p.tpm := by
  refine Reads.bind reads_readJournal fun found hfound => reads_bind_lift fun head hhead => ?_
  refine reads_bind_lift fun mine hmine => reads_bind_lift fun _ hsame => ?_
  refine Reads.bind reads_anchorRead fun value hvalue => reads_bind_lift fun _ hvalue' => ?_
  refine Reads.bind reads_hasPending fun fenced hfenced => reads_bind_lift fun _ hnone => ?_
  refine Reads.bind reads_anchorClock fun _ _ => reads_pure ?_
  rw [refuseIf_eq_ok] at hsame hvalue' hnone
  rw [bne_eq_false_iff_eq] at hsame hvalue'
  have hown : found.1 = store.journal := head_inj hc hhead (hsame ▸ hmine)
  rw [← hown]
  refine ⟨current_of_files hfound.2 hfenced hnone, ?_⟩
  rw [← hvalue, hvalue']
  exact hhead

/-- A publication is of a proposal that the TPM holds. -/
theorem reads_publication : Reads (publication H) p fun _ => ∃ (j : Journal) (e : Entry),
    p.current = ⟨some j.bytes, some (j.push e).bytes⟩ ∧ (j.push e).head H = .ok p.tpm := by
  refine Reads.bind reads_readJournal fun current hcurrent => ?_
  refine Reads.bind reads_readJournal fun proposed hproposed => ?_
  refine reads_bind_lift fun before hbefore => reads_bind_lift fun after hafter => ?_
  refine reads_bind_lift fun _ hsuccessor => ?_
  refine Reads.bind reads_anchorRead fun value hvalue => reads_bind_lift fun _ hsame => ?_
  refine reads_bind_lift fun last _ => reads_pure ?_
  simp only [refuseIf_eq_ok, Bool.or_eq_false_iff, bne_eq_false_iff_eq, Bool.not_eq_false',
    List.isPrefixOf_iff_prefix] at hsuccessor hsame
  obtain ⟨⟨hdep, hlen⟩, hpre⟩ := hsuccessor
  obtain ⟨e, he⟩ := push_of_successor hbefore hafter hdep hlen hpre
  refine ⟨current.1, e, ?_, ?_⟩
  · rw [← he]
    exact congrArg₂ Directory.mk hcurrent.2 hproposed.2
  · rw [← he, ← hvalue, hsame]
    exact hafter

/-! ## Calls that write -/

/-- `LocalAnchor::advance` extends a TPM that holds what is expected, or leaves it. -/
theorem ends_advance {expected event : D} (h : E p)
    (h' : p.tpm = expected → E { p with tpm := H.extendValue expected event }) :
    Ends (advance H expected event) p
      (fun v p' => p' = { p with tpm := H.extendValue expected event } ∧
        v = H.extendValue expected event) E := by
  refine Reads.ends_bind reads_anchorRead h fun value hvalue => ends_bind_lift h fun _ hsame => ?_
  rw [refuseIf_eq_ok, bne_eq_false_iff_eq, hvalue] at hsame
  have h' := h' hsame
  refine ends_bind (ends_modify h (by rw [hsame]; exact h')) ?_
  rintro _ _ rfl
  rw [hsame]
  refine Reads.ends_bind reads_anchorRead h' fun _ _ => ends_bind_lift h' fun _ _ => ?_
  exact ends_pure ⟨rfl, rfl⟩

/-- **`Store::append` refines the protocol**: it succeeds only on a settled journal, commits its
entry and leaves a settled journal; cut off anywhere, it has made some of its moves and committed at
most its entry. -/
theorem ends_append (hc : H.CollisionFree) {entry : Entry} : Ends (store.append H entry) p
    (fun _ p' => Settled H p.current p.tpm ∧ Settled H p'.current p'.tpm ∧ Moves H p [entry] p')
    (fun p' => ∃ l, l.Sublist [entry] ∧ Moves H p l p') := by
  have hnil : List.Sublist [] [entry] := List.nil_sublist _
  have hone : List.Sublist [entry] [entry] := List.Sublist.refl _
  have h₀ : ∃ l, l.Sublist [entry] ∧ Moves H p l p := ⟨[], hnil, .refl⟩
  refine Reads.ends_bind (reads_status hc) h₀ fun _ hstatus => ends_bind_lift h₀ fun _ _ => ?_
  obtain ⟨hcur, hhead⟩ := hstatus
  refine Reads.ends_bind reads_anchorClock h₀ fun _ _ => ends_bind_lift h₀ fun _ _ => ?_
  refine ends_bind_lift h₀ fun before hbefore => ends_bind_lift h₀ fun digest hdigest => ?_
  refine ends_bind_lift h₀ fun after hafter => ends_bind_lift h₀ fun _ _ => ?_
  refine Reads.ends_bind reads_authorize h₀ fun _ _ => ?_
  refine Reads.ends_bind reads_hasPending h₀ fun _ _ => ends_bind_lift h₀ fun _ _ => ?_
  rw [hhead] at hbefore
  cases hbefore
  have hextend := head_push hhead hafter hdigest
  -- the platforms after each write
  let j := store.journal
  let next := j.push entry
  let d : Directory := ⟨some j.bytes, some next.bytes⟩
  let fenced : Platform D := { p with current := d, durable := d }
  let committed : Platform D := { fenced with tpm := after }
  let published : Platform D := { committed with current := ⟨some next.bytes, none⟩ }
  have h₁ : Moves H p [] { p with current := d } := .single (.propose hcur hhead hafter)
  have h₂ : Moves H p [] fenced := h₁.tail .writeBack
  have h₃ : Moves H p [entry] committed := h₂.tail (.commit rfl rfl hhead hafter)
  have h₄ : Moves H p [entry] published := h₃.tail (.publish rfl hafter)
  have h₅ : Moves H p [entry] { published with durable := published.current } := h₄.tail .writeBack
  have hE₂ : ∃ l, l.Sublist [entry] ∧ Moves H p l fenced := ⟨_, hnil, h₂⟩
  have hE₅ : ∃ l, l.Sublist [entry] ∧
      Moves H p l { published with durable := published.current } := ⟨_, hone, h₅⟩
  refine ends_bind (ends_writePending (d := d) (by rw [hcur]) h₀ ⟨_, hnil, h₁⟩ hE₂) ?_
  rintro _ _ rfl
  refine Reads.ends_bind reads_authorize hE₂ fun _ _ => ?_
  refine Reads.ends_bind reads_readJournal hE₂ fun _ _ => ?_
  refine Reads.ends_bind reads_readJournal hE₂ fun _ _ => ends_bind_lift hE₂ fun _ _ => ?_
  refine ends_bind_lift hE₂ fun _ _ => Reads.ends_bind reads_anchorRead hE₂ fun _ _ => ?_
  refine ends_bind_lift hE₂ fun _ _ => Reads.ends_bind reads_anchorClock hE₂ fun _ _ => ?_
  refine ends_bind_lift hE₂ fun _ _ => Reads.ends_bind reads_authorize hE₂ fun _ _ => ?_
  refine ends_bind (ends_advance hE₂ fun _ => hextend ▸ ⟨_, hone, h₃⟩) ?_
  rintro _ _ ⟨rfl, rfl⟩
  rw [← hextend]
  refine ends_bind_lift ⟨_, hone, h₃⟩ fun _ _ => ?_
  have hpending : committed.current.pending = some next.bytes := rfl
  refine ends_bind (ends_renamePending hpending ⟨_, hone, h₃⟩ ⟨_, hone, h₄⟩) ?_
  rintro _ _ rfl
  refine ends_bind (ends_syncDirectory ⟨_, hone, h₄⟩ hE₅) ?_
  rintro _ _ rfl
  refine Reads.ends_bind (reads_status hc) hE₅ fun _ _ => ends_pure ?_
  exact ⟨⟨j, hcur, hhead⟩, ⟨next, rfl, hafter⟩, h₅⟩

/-- **`Recovery::publish` refines the protocol**: it succeeds only when the TPM holds the head of
the proposal, and leaves a settled journal; it never commits. -/
theorem ends_publish (hc : H.CollisionFree) {recovery : Recovery} {reviewed : String} :
    Ends (recovery.publish H reviewed) p
      (fun _ p' => (∃ (j : Journal) (e : Entry), p.current = ⟨some j.bytes, some (j.push e).bytes⟩ ∧
        (j.push e).head H = .ok p.tpm) ∧ Settled H p'.current p'.tpm ∧ Moves H p [] p')
      (fun p' => Moves H p [] p') := by
  refine ends_bind_lift .refl fun _ _ => ends_bind_lift .refl fun _ _ => ?_
  refine Reads.ends_bind reads_publication .refl fun _ hpending => ?_
  refine ends_bind_lift .refl fun _ _ => ?_
  obtain ⟨j, e, hcur, hhead⟩ := hpending
  refine Reads.ends_bind reads_anchorClock .refl fun _ _ => ends_bind_lift .refl fun _ _ => ?_
  refine Reads.ends_bind reads_syncPending .refl fun _ _ => ?_
  have hbytes : p.current.pending = some (j.push e).bytes := by rw [hcur]
  have h₁ : Moves H p [] { p with current := ⟨some (j.push e).bytes, none⟩ } :=
    .single (.publish hbytes hhead)
  refine ends_bind (ends_renamePending hbytes .refl h₁) ?_
  rintro _ _ rfl
  have h₂ := h₁.tail .writeBack
  refine ends_bind (ends_syncDirectory h₁ h₂) ?_
  rintro _ _ rfl
  refine Reads.ends_bind reads_open h₂ fun _ _ => ?_
  refine Reads.ends_bind (reads_status hc) h₂ fun _ _ => ends_pure ?_
  exact ⟨⟨j, e, hcur, hhead⟩, ⟨j.push e, rfl, hhead⟩, h₂⟩

theorem reads_inspect : Reads (Recovery.inspect H) p fun _ => True := by
  refine Reads.bind reads_anchorClock fun _ _ => Reads.bind reads_publication fun _ _ => ?_
  exact Reads.bind reads_anchorClock fun _ _ => reads_bind_lift fun _ _ => reads_pure trivial

end Contracts

/-! ## Runs -/

/-- A call with the replies it sees, on any store or recovery that a process may still hold, or what
the system does by itself. -/
inductive Event where
  | reopen (replies : List (Reply Clock))
  | status (store : Store) (replies : List (Reply Clock))
  | append (store : Store) (entry : Entry) (replies : List (Reply Clock))
  | inspect (replies : List (Reply Clock))
  | publish (recovery : Recovery) (reviewedDigest : String) (replies : List (Reply Clock))
  | writeBack
  | powerLoss

/-- The entry that an event asks to append. -/
def Event.requested : Event → List Entry
  | .append _ entry _ => [entry]
  | _ => []

/-- A fresh installation: the initial journal, and its genesis extended into a fresh index. -/
def provision (H : Hashing D) (deployment : String) : Result (Platform D) := do
  let bytes ← initial H deployment
  let first ← genesis H deployment
  let directory : Directory := { journal := some bytes, pending := none }
  pure { current := directory, durable := directory, tpm := H.extendValue H.zero first }

theorem provision_settled {deployment : String} (h : provision H deployment = .ok p) :
    Settled H p.current p.tpm ∧ p.durable = p.current := by
  simp only [provision, initial, genesis, bind_eq_ok, pure_eq_ok] at h
  obtain ⟨_, ⟨_, ⟨k, hk, rfl⟩, rfl⟩, _, ⟨k', hk', rfl⟩, rfl⟩ := h
  rw [hk] at hk'
  cases hk'
  refine ⟨⟨_, rfl, head_eq_ok.mpr ⟨rfl, ?_, ?_, .nil, k, hk, rfl⟩⟩, rfl⟩
  · exact Nat.not_lt_zero maxEvents
  · exact fun _ he => absurd he List.not_mem_nil

theorem moves_of_reads {α : Type} {m : Call D α} {P : α → Prop} (h : Reads m p P)
    (replies : List (Reply Clock)) : Moves H p [] (m.leaves p replies) := by
  rw [Ends.leaves h (fun _ _ ha => ha.1) replies]
  exact .refl

variable [DecidableEq D]

/-- The platform that an event leaves, wherever its call ends. -/
def step (H : Hashing D) (p : Platform D) : Event → Platform D
  | .reopen replies => (Store.open H).leaves p replies
  | .status store replies => (store.status H).leaves p replies
  | .append store entry replies => (store.append H entry).leaves p replies
  | .inspect replies => (Recovery.inspect H).leaves p replies
  | .publish recovery reviewedDigest replies => (recovery.publish H reviewedDigest).leaves p replies
  | .writeBack => { p with durable := p.current }
  | .powerLoss => { p with current := p.durable }

def run (H : Hashing D) (p : Platform D) (events : List Event) : Platform D :=
  events.foldl (step H) p

/-- **An event is some moves** that commit at most what it asks for. -/
theorem step_moves (hc : H.CollisionFree) (p : Platform D) (e : Event) :
    ∃ l, l.Sublist e.requested ∧ Moves H p l (step H p e) := by
  cases e with
  | reopen replies => exact ⟨[], .refl _, moves_of_reads reads_open replies⟩
  | status store replies => exact ⟨[], .refl _, moves_of_reads (reads_status hc) replies⟩
  | append store entry replies =>
    exact Ends.leaves (ends_append hc) (fun _ _ h => ⟨[entry], .refl _, h.2.2⟩) replies
  | inspect replies => exact ⟨[], .refl _, moves_of_reads reads_inspect replies⟩
  | publish recovery reviewedDigest replies =>
    exact ⟨[], .refl _, Ends.leaves (ends_publish hc) (fun _ _ h => h.2.2) replies⟩
  | writeBack => exact ⟨[], .refl _, .single .writeBack⟩
  | powerLoss => exact ⟨[], .refl _, .single .powerLoss⟩

theorem run_moves (hc : H.CollisionFree) (p : Platform D) (events : List Event) :
    ∃ l, l.Sublist (events.flatMap Event.requested) ∧ Moves H p l (run H p events) := by
  induction events generalizing p with
  | nil => exact ⟨[], .refl _, .refl⟩
  | cons e events ih =>
    obtain ⟨l, hl, hfirst⟩ := step_moves hc p e
    obtain ⟨m, hm, hrest⟩ := ih (step H p e)
    exact ⟨l ++ m, hl.append hm, hfirst.trans hrest⟩

/-- **The journal and the TPM stay reconcilable.** After any run on a provisioned platform: the
directory is settled or fenced; `open` and `append` succeed only on a settled one, and `publish`
only when the TPM holds the head of the proposal, with a settled one as the result; the TPM value is
the head of exactly one journal, which is in one of the files, repeats no request, extends the
published one, and is extended by every later run with some of the requested entries, in their
order. -/
theorem journal_reconcilable (H : Hashing D) (hc : H.CollisionFree) (deployment : String)
    (start : Platform D) (hstart : provision H deployment = .ok start) (events : List Event) :
    let p := run H start events
    (Settled H p.current p.tpm ∨ Fenced H p.current p.tpm) ∧
    (∀ replies store s, exec (Store.open H) ⟨p, replies⟩ = (.ok store, s) →
      Settled H p.current p.tpm) ∧
    (∀ (store : Store) entry replies store' s,
      exec (store.append H entry) ⟨p, replies⟩ = (.ok store', s) →
      Settled H p.current p.tpm ∧ Settled H s.world.current s.world.tpm) ∧
    (∀ (recovery : Recovery) reviewed replies store s,
      exec (recovery.publish H reviewed) ⟨p, replies⟩ = (.ok store, s) →
      (∃ (j : Journal) (e : Entry), p.current = ⟨some j.bytes, some (j.push e).bytes⟩ ∧
        (j.push e).head H = .ok p.tpm) ∧ Settled H s.world.current s.world.tpm) ∧
    ∃ committed : Journal, (∀ j : Journal, j.head H = .ok p.tpm ↔ j = committed) ∧
      (committed.entries.map Entry.requestId).Nodup ∧
      (p.current.journal = some committed.bytes ∨ p.current.pending = some committed.bytes) ∧
      (∃ j : Journal, p.current.journal = some j.bytes ∧ j.entries <+: committed.entries) ∧
      ∀ more, ∃ added, added.Sublist (more.flatMap Event.requested) ∧
        ({ committed with entries := committed.entries ++ added } : Journal).head H =
          .ok (run H p more).tpm := by
  intro p
  have hp : Recoverable H p := by
    obtain ⟨hsettled, hdurable⟩ := provision_settled hstart
    obtain ⟨l, -, hmoves⟩ := run_moves hc start events
    exact hmoves.recoverable ⟨Or.inl hsettled, Or.inl (hdurable ▸ hsettled)⟩
  refine ⟨hp.current, fun replies store s h => ?_, fun store entry replies store' s h => ?_,
    fun recovery reviewed replies store s h => ?_, ?_⟩
  · obtain ⟨-, hcur, hhead⟩ := Ends.of_ok reads_open h
    exact ⟨store.journal, hcur, hhead⟩
  · obtain ⟨hbefore, hafter, -⟩ := (ends_append hc).of_ok h
    exact ⟨hbefore, hafter⟩
  · obtain ⟨hbefore, hafter, -⟩ := (ends_publish hc).of_ok h
    exact ⟨hbefore, hafter⟩
  · obtain ⟨committed, hhead, hfile, hpre⟩ := committed_of_recoverable hp.current
    have hnodup : (committed.entries.map Entry.requestId).Nodup := by
      rw [List.Nodup, List.pairwise_map]
      exact (head_eq_ok.mp hhead).2.2.2.1
    refine ⟨committed, fun j => ⟨fun hj => head_inj hc hj hhead, fun hj => hj ▸ hhead⟩, hnodup,
      hfile, hpre, fun more => ?_⟩
    obtain ⟨added, hadded, hmoves⟩ := run_moves hc p more
    exact ⟨added, hadded, hmoves.committed hc hhead⟩

/-! ### A lost reply -/

/-- A mark before each byte and another at the end, so that two texts can be told apart when they
stand side by side. -/
def marked (text : Bytes) : Bytes := text.flatMap (fun b => [1, b]) ++ [0]

theorem marked_read : ∀ {a b r s : Bytes}, marked a ++ r = marked b ++ s → a = b ∧ r = s
  | [], [], _, _, h => ⟨rfl, (List.cons.inj h).2⟩
  | [], _ :: _, _, _, h => by cases h
  | _ :: _, [], _, _, h => by cases h
  | x :: a, y :: b, _, _, h => by
    obtain ⟨rfl, hrest⟩ := List.cons.inj (List.cons.inj h).2
    obtain ⟨rfl, rfl⟩ := marked_read hrest
    exact ⟨rfl, rfl⟩

/-- A hash without collisions, where every text is its own digest, and a parser that knows the
journals of the run. -/
def sampleHashing (known : List Journal) : Hashing Bytes where
  sha256 := id
  bytes := marked
  zero := zeros 32
  parse bytes :=
    match known.find? fun j => j.bytes == bytes with
    | some j => .ok j
    | none => .error "expected value at line 1 column 1"

theorem sampleHashing_collisionFree (known : List Journal) :
    (sampleHashing known).CollisionFree where
  sha256 := Function.injective_id
  extend a b c d h := by
    have h : marked a ++ marked c = marked b ++ marked d := h
    obtain ⟨hab, hrest⟩ := marked_read h
    rw [← List.append_nil (marked c), ← List.append_nil (marked d)] at hrest
    exact ⟨hab, (marked_read hrest).1⟩

def sampleDeployment : String := repeatText "ab" 32

def sampleJournal : Journal := { schemaVersion := 1, deployment := sampleDeployment, entries := [] }

def sampleEntry : Entry where
  requestId := "request-1"
  authenticatedUid := 1001
  clock := ⟨5, 0, 0⟩
  activity := "policy.audit"
  payloadSha256 := repeatText "12" 32

/-- An append that loses the reply to its TPM write, after seventeen good replies, and a power
loss. -/
def sampleEvents : List Event :=
  [.append ⟨sampleJournal⟩ sampleEntry
    (List.replicate 17 (.done ⟨10, 0, 0⟩) ++ [.lost ⟨10, 0, 0⟩ "TPM response timeout"]), .powerLoss]

theorem journal_reconcilable_lost_reply :
    let H := sampleHashing [sampleJournal, sampleJournal.push sampleEntry]
    ∃ start, provision H sampleDeployment = .ok start ∧
      let p := run H start sampleEvents
      (Settled H p.current p.tpm ∨ Fenced H p.current p.tpm) ∧
      ∃ committed : Journal, ∀ j : Journal, j.head H = .ok p.tpm ↔ j = committed := by
  intro H
  have hdecode : decode 32 sampleDeployment = .ok (List.replicate 32 0xab) := by decide +kernel
  obtain ⟨start, hstart⟩ : ∃ start, provision H sampleDeployment = .ok start := by
    simp only [provision, initial, genesis, hdecode]
    exact ⟨_, rfl⟩
  obtain ⟨hkind, -, -, -, committed, honly, -⟩ := journal_reconcilable H
    (sampleHashing_collisionFree _) sampleDeployment start hstart sampleEvents
  exact ⟨start, hstart, hkind, committed, honly⟩

end LumaOS.Audit
