import LumaOS.Models.Retention

/-!
# An interrupted trial can be retired

A run is any sequence of `Guard::begin`, `retain_abandoned` and `retain_incomplete`, each with the
replies it sees, so each cut off anywhere. Two cuts leave a directory that no later call accepts:

* between the creation of the archive and the last byte of it, because a retry finds an archive
  under the record's digest that does not hold the record;
* between the creation of the record and its `set_permissions`, when the umask took a bit from its
  mode, because no inspection reads a record that is not `0644`.

`Kept` is what every other cut keeps: the archives hold what their names say, and a record in place
is a prefix of what `begin` writes, under the lock it names.

* `trial_retired`: in a run whose steps are not cut off there, a record that is left is retired by
  the inspection and the retention that fit it.
* `trial_stuck`: the first of the two cuts leaves a record that neither inspection accepts.
-/

namespace LumaOS.Models

open LumaOS.Base LumaOS.Text LumaOS.Json

/-! ## Runs -/

/-- A call of one of the three functions. -/
inductive TrialCall where
  | begin (p : Profile) (who : Process) (locks : Locks)
      (incident : { bytes : Bytes // bytes.length = 16 })
  | retainAbandoned (who : Process) (locks : Locks) (reviewed : String)
  | retainIncomplete (locks : Locks) (reviewed : String)

/-- A call and the replies it sees. -/
structure TrialStep where
  call : TrialCall
  replies : List (Reply Seen)

/-- The directory that a step leaves. -/
def TrialStep.leaves (O : Outside) (s : TrialStep) (d : Disk) : Disk :=
  match s.call with
  | .begin p who locks incident => (Guard.begin O p who locks incident).leaves d s.replies
  | .retainAbandoned who locks reviewed =>
    (retainAbandoned O who locks reviewed O.profile).leaves d s.replies
  | .retainIncomplete locks reviewed =>
    (retainIncomplete O locks reviewed O.profile).leaves d s.replies

def trialRun (O : Outside) (d : Disk) (steps : List TrialStep) : Disk :=
  steps.foldl (fun d s => s.leaves O d) d

/-- The replies that `begin` has left when it creates the record. -/
def atCreation (d : Disk) (replies : List (Reply Seen)) : List (Reply Seen) :=
  match d.lease, replies with
  | some _, rest => rest
  | none, .done _ :: .done _ :: rest => rest
  | none, _ => []

/-- The umask leaves a new file the mode it is created with. -/
def KeepsMode (replies : List (Reply Seen)) : Prop :=
  ∀ seen rest, (replies = .done seen :: rest ∨ ∃ message, replies = .lost seen message :: rest) →
    (createdFile 0o644 seen).mode = 0o644

/-- `begin` is called with a profile of the catalog and is not cut off between the creation of the
record and its `set_permissions`, unless the record has its mode already. -/
structure BeginSpared (O : Outside) (p : Profile) (d : Disk) (replies : List (Reply Seen)) :
    Prop where
  profile : O.profile p.id = .ok p
  whole : Whole 2 (atCreation d replies) ∨ KeepsMode (atCreation d replies)

/-- A retention is not cut off between the creation of an archive and its last byte. -/
def RetainSpared (O : Outside) (d : Disk) (replies : List (Reply Seen)) : Prop :=
  ∀ f, d.pending = some f → f.bytes ≠ [] → d.archives[archiveName O f.bytes]? = none →
    Whole 4 replies

/-- The step is not cut off at either place. -/
def TrialStep.Spared (O : Outside) (d : Disk) (s : TrialStep) : Prop :=
  match s.call with
  | .begin p _ _ _ => BeginSpared O p d s.replies
  | .retainAbandoned _ _ _ => RetainSpared O d s.replies
  | .retainIncomplete _ _ => RetainSpared O d s.replies

/-- Every step is spared, and SHA-256 tells apart what the record holds after each. -/
def Spared (O : Outside) (known : Set Bytes) : Disk → List TrialStep → Prop
  | _, [] => True
  | d, s :: rest => s.Spared O d ∧ (∀ f, (s.leaves O d).pending = some f → f.bytes ∈ known) ∧
      Spared O known (s.leaves O d) rest

/-! ## The invariant -/

/-- An archive holds what its name says. -/
structure Genuine (O : Outside) (known : Set Bytes) (name : String) (g : File) : Prop where
  mode : g.mode &&& 0o077 = 0
  short : g.bytes.length ≤ maxRecord
  known : g.bytes ∈ known
  name : name = archiveName O g.bytes

/-- A record in place: the beginning of what `begin` writes under this lock. -/
structure InPlace (O : Outside) (d : Disk) (f : File) : Prop where
  mode : f.mode = 0o644
  record : ∃ p who l incident, d.lease = some l ∧ l.mode &&& 0o7777 = 0o644 ∧
    O.profile p.id = .ok p ∧ Consistent O O.profile p d.config ∧
    f.bytes <+: (trialRecord O p who l incident d.config).bytes

/-- **What no spared cut breaks.** -/
structure Kept (O : Outside) (known : Set Bytes) (d : Disk) : Prop where
  marker : d.marker = none
  backup : d.backup = none
  lease : ∀ l, d.lease = some l → l.bytes = []
  archives : ∀ name g, d.archives[name]? = some g → Genuine O known name g
  pending : ∀ f, d.pending = some f → InPlace O d f

variable {O : Outside} {known : Set Bytes} {d : Disk} {locks : Locks} {p : Profile}
  {who : Process} {replies : List (Reply Seen)} {resolve : String → Result Profile}

theorem archiveName_inj {a b : Bytes} (h : archiveName O a = archiveName O b) :
    O.digest a = O.digest b :=
  (String.append_right_inj _).mp h

/-- **A record in place is retired.** -/
theorem Kept.retires (hO : O.Sound known) (h : Kept O known d) {f : File}
    (hf : d.pending = some f) (hknown : f.bytes ∈ known) (hlocks : locks.Free)
    (hwho : ∀ r, Record.decode O f.bytes O.profile = .ok r → r.controllerPid ≠ who.pid) :
    (∃ o, Shows (inspect O who locks O.profile) d (.ok o) ∧
      Succeeds 5 (retainAbandoned O who locks o.review O.profile) d (Retired f)) ∨
    (∃ o, Shows (inspectIncomplete O locks O.profile) d (.ok o) ∧
      Succeeds 5 (retainIncomplete O locks o.review O.profile) d (Retired f)) := by
  obtain ⟨hmode, p, writer, l, incident, hl, hlmode, hp, hc, hprefix⟩ := h.pending f hf
  have hinspectable : Inspectable O p f l d :=
    { marker := h.marker, backup := h.backup, pending := hf, mode := hmode,
      short := le_trans hprefix.length_le (length_trialRecord_le hO hp),
      lease := hl, leaseMode := hlmode, leaseEmpty := h.lease l hl, consistent := hc,
      archive := fun g hg => by
        have hgenuine := h.archives _ g hg
        exact ⟨hO.digest_inj hgenuine.known hknown (archiveName_inj hgenuine.name.symm),
          hgenuine.mode⟩ }
  by_cases hwhole : f.bytes = (trialRecord O p writer l incident d.config).bytes
  · have hdecode := (@decode_trialRecord _ _ _ writer l incident _) hO hp hc
    rw [← hwhole] at hdecode
    exact .inl ⟨_, hinspectable.retainAbandoned hlocks hO ⟨hdecode, rfl, rfl⟩ (hwho _ hdecode)⟩
  · exact .inr ⟨_, hinspectable.retainIncomplete hlocks hO (Record.fromSlice_cut hprefix hwhole)⟩

/-! ## `Guard::begin` -/

/-- Nothing is in place without a record. -/
theorem Kept.withLease (h : Kept O known d) (hpending : d.pending = none) {l : File}
    (hl : l.bytes = []) : Kept O known { d with lease := some l } where
  marker := h.marker
  backup := h.backup
  lease l' hl' := by
    cases hl'
    exact hl
  archives := h.archives
  pending f hf := by
    rw [hpending] at hf
    cases hf

theorem Kept.withPending (h : Kept O known d) {f : File} (hf : InPlace O d f) :
    Kept O known { d with pending := some f } where
  marker := h.marker
  backup := h.backup
  lease := h.lease
  archives := h.archives
  pending f' hf' := by
    cases hf'
    exact ⟨hf.mode, hf.record⟩

/-- `begin` takes the lock: the file is there with its mode, and the replies are those of the
creation of the record. -/
theorem endsOn_lockFile (h : Kept O known d) (hpending : d.pending = none) :
    EndsOn (lockFile true) d replies
      (fun l s => s.world = { d with lease := some l } ∧ l.mode &&& 0o7777 = 0o644 ∧
        l.bytes = [] ∧ s.replies = atCreation d replies) (Kept O known) := by
  refine endsOn_bind_quiet shows_look.quiet h ?_
  rintro _ ⟨⟩
  cases hlease : d.lease with
  | some l =>
    simp only [Option.isNone_some, Bool.and_false, Bool.false_eq_true, if_false]
    refine endsOn_bind_quiet shows_look.quiet h ?_
    rintro _ ⟨⟩
    refine endsOn_quiet (quiet_lift fun _ ha => ha) h fun l' hl' => ?_
    obtain ⟨hl, hmode, hbytes⟩ := checkedLock_eq_ok.mp hl'
    obtain rfl : l = l' := Option.some.inj (hlease.symm.trans hl)
    exact ⟨by rw [← hl], hmode, hbytes, by simp only [atCreation, hl]⟩
  | none =>
    simp only [Option.isNone_none, Bool.and_self, if_true]
    have hcreated : ∀ seen, Kept O known { d with lease := some (createdFile 0o644 seen) } :=
      fun seen => h.withLease hpending rfl
    refine endsOn_bind_call (fun seen => rfl) (fun _ => h) (fun seen _ _ _ => hcreated seen)
      fun seen rest hreplies => ?_
    have hchanged : ∀ seen', Kept O known
        { d with lease := some ((createdFile 0o644 seen).chmod 0o644 seen') } :=
      fun seen' => h.withLease hpending rfl
    refine endsOn_bind_call (fun seen' => rfl) (fun _ => hcreated seen)
      (fun seen' _ _ _ => hchanged seen') fun seen' rest' hreplies' => ?_
    refine endsOn_bind_quiet shows_look.quiet (hchanged seen') ?_
    rintro _ ⟨⟩
    refine endsOn_quiet (quiet_lift fun _ ha => ha) (hchanged seen') fun l' hl' => ?_
    obtain ⟨hl, hmode, hbytes⟩ := checkedLock_eq_ok.mp hl'
    obtain rfl := Option.some.inj hl
    exact ⟨rfl, hmode, hbytes, by simp only [atCreation, hlease, hreplies, hreplies']⟩

/-- A candidate is resolved to itself. -/
theorem Consistent.candidate {q : Profile} (h : Consistent O (candidateOnly p) q d.config) :
    q = p := by
  have hresolve := (priorRestoreProfile_some.mp h.prior).2
  simp only [candidateOnly, bind_eq_ok, pure_eq_ok] at hresolve
  obtain ⟨-, -, rfl⟩ := hresolve
  rfl

theorem quiet_check {g : Guard} : Quiet (g.check O p who) d fun _ => True := by
  refine quiet_bind shows_look.quiet ?_
  rintro _ ⟨⟩
  exact quiet_bind_lift fun _ _ => quiet_bind_lift fun _ _ => quiet_bind_lift fun _ _ =>
    quiet_lift fun _ _ => trivial

/-- The record is written without leaving anything else behind. -/
theorem endsOn_record {l : File} {incident : { bytes : Bytes // bytes.length = 16 }} {g : Guard}
    (h : Kept O known d) (hl : d.lease = some l) (hmode : l.mode &&& 0o7777 = 0o644)
    (hp : O.profile p.id = .ok p) (hc : Consistent O O.profile p d.config)
    (hwhole : Whole 2 replies ∨ KeepsMode replies) :
    EndsOn (do
      call fun seen => modify fun d => { d with pending := some (createdFile 0o644 seen) }
      call fun seen => modify fun d =>
        { d with pending := d.pending.map fun f => f.chmod 0o644 seen }
      writeAll (fun change d => { d with pending := d.pending.map change })
        (trialRecord O p who l incident d.config).bytes
      g.check O p who
      pure g : Calls Disk Seen Guard) d replies (fun _ s => Kept O known s.world)
      (Kept O known) := by
  have hplaced : ∀ f : File, f.mode = 0o644 →
      f.bytes <+: (trialRecord O p who l incident d.config).bytes →
      Kept O known { d with pending := some f } := fun f hf hprefix =>
    h.withPending ⟨hf, p, who, l, incident, hl, hmode, hp, hc, hprefix⟩
  have hcreated : ∀ seen, (createdFile 0o644 seen).mode = 0o644 → Kept O known
      { d with pending := some (createdFile 0o644 seen) } := fun seen hseen =>
    hplaced _ hseen List.nil_prefix
  refine endsOn_bind_call (fun seen => rfl) (fun _ => h) (fun seen message rest hreplies => ?_)
    fun seen rest hreplies => ?_
  · refine hcreated seen ?_
    obtain hwhole | hkeeps := hwhole
    · rw [hreplies] at hwhole
      exact (hwhole trivial).elim
    · exact hkeeps seen rest (.inr ⟨message, hreplies⟩)
  refine endsOn_bind_call (fun seen => rfl) (fun hstop => hcreated seen ?_)
    (fun seen' _ _ _ => hplaced _ rfl List.nil_prefix) fun seen' rest' _ => ?_
  · obtain hwhole | hkeeps := hwhole
    · rw [hreplies] at hwhole
      exact absurd (hwhole trivial) hstop
    · exact hkeeps seen rest (.inl hreplies)
  simp only [writeAll, bind_assoc]
  refine endsOn_bind_call (a := fun seen => seen.part _) (fun seen => rfl)
    (fun _ => hplaced _ rfl List.nil_prefix)
    (fun seen'' _ _ _ => hplaced _ rfl (List.take_prefix _ _)) fun seen'' rest'' _ => ?_
  have hall : ∀ (bytes : Bytes) (n : Nat), [] ++ bytes.take n ++ bytes.drop n <+: bytes := by
    intro bytes n
    simp only [List.nil_append, List.take_append_drop, List.prefix_rfl]
  refine endsOn_bind_call (fun seen => rfl)
    (fun _ => hplaced _ rfl (List.take_prefix _ _)) (fun _ _ _ _ => hplaced _ rfl (hall _ _))
    fun _ _ _ => ?_
  exact endsOn_bind_quiet quiet_check (hplaced _ rfl (hall _ _)) fun _ _ =>
    hplaced _ rfl (hall _ _)

/-- **`begin` keeps the invariant** where it is spared. -/
theorem Kept.begin {incident : { bytes : Bytes // bytes.length = 16 }} (h : Kept O known d)
    (hs : BeginSpared O p d replies) :
    Kept O known ((Guard.begin O p who locks incident).leaves d replies) := by
  suffices hends : EndsOn (Guard.begin O p who locks incident) d replies
      (fun _ s => Kept O known s.world) (Kept O known) from hends.leaves fun _ _ hs => hs
  refine endsOn_bind_quiet shows_look.quiet h ?_
  rintro _ ⟨⟩
  refine endsOn_bind_lift h fun _ hpending => ?_
  rw [refuseIf_eq_ok, Option.isSome_eq_false_iff, Option.isNone_iff_eq_none] at hpending
  refine endsOn_bind ((endsOn_lockFile h hpending).mono ?_)
  rintro l ⟨d₁, replies₁⟩ ⟨rfl, hmode, hempty, rfl⟩
  have h₁ : Kept O known { d with lease := some l } := h.withLease hpending hempty
  refine endsOn_bind_lift h₁ fun _ _ => endsOn_bind_lift h₁ fun _ _ => ?_
  refine endsOn_bind_quiet quiet_consistentCurrent h₁ ?_
  rintro ⟨_, current⟩ ⟨rfl, hcurrent⟩
  refine endsOn_bind_lift h₁ fun _ hcandidate => ?_
  rw [refuseIf_eq_ok, Option.isNone_eq_false_iff, Option.isSome_iff_exists] at hcandidate
  obtain ⟨q, rfl⟩ := hcandidate
  have hconsistent := hcurrent q rfl
  obtain rfl : p = q := hconsistent.candidate.symm
  exact endsOn_record h₁ rfl hmode hs.profile (hconsistent.resolves hs.profile) hs.whole

/-! ## Retention -/

theorem Kept.withoutPending (h : Kept O known d) : Kept O known { d with pending := none } where
  marker := h.marker
  backup := h.backup
  lease := h.lease
  archives := h.archives
  pending f hf := by cases hf

/-- Archives that hold what their names say may change. -/
theorem Kept.holding {f : File} {u : Bytes} {d' : Disk} (h : Kept O known d)
    (hknown : f.bytes ∈ known) (hshort : f.bytes.length ≤ maxRecord)
    (ha : Holding (archiveName O f.bytes) u d d') (hu : u = f.bytes) : Kept O known d' := by
  obtain ⟨hsame, hothers, g, hg, hbytes, hmode⟩ := ha
  rw [hsame]
  refine { h with archives := fun name g' hg' => ?_, pending := fun f' hf' => ?_ }
  · by_cases hname : archiveName O f.bytes = name
    · subst hname
      obtain rfl : g = g' := Option.some.inj (hg.symm.trans hg')
      rw [hu] at hbytes
      exact ⟨hmode, by rw [hbytes]; exact hshort, by rw [hbytes]; exact hknown, by rw [hbytes]⟩
    · exact h.archives name g' ((hothers name hname).symm.trans hg')
  · obtain ⟨hpmode, hrecord⟩ := h.pending f' hf'
    exact ⟨hpmode, hrecord⟩

theorem quiet_recoveryLock : Quiet (recoveryLock locks) d fun _ => True := by
  have hlock : Quiet (lockFile false) d fun _ => True := by
    refine quiet_bind shows_look.quiet ?_
    rintro _ ⟨⟩
    refine quiet_bind shows_look.quiet ?_
    rintro _ ⟨⟩
    exact quiet_lift fun _ _ => trivial
  refine quiet_bind hlock fun _ _ => quiet_bind_lift fun _ _ => quiet_bind shows_look.quiet ?_
  rintro _ ⟨⟩
  exact quiet_bind_lift fun _ _ => quiet_pure trivial

theorem quiet_independentTypedOwner :
    Quiet (independentTypedOwner O who resolve) d fun _ => True := by
  refine quiet_bind shows_look.quiet ?_
  rintro _ ⟨⟩
  exact quiet_bind_lift fun _ _ => quiet_bind_lift fun _ _ => quiet_bind_lift fun _ _ =>
    quiet_bind_lift fun _ _ => quiet_lift fun _ _ => trivial

/-- What an inspection reports of the record in place. -/
structure Observes (O : Outside) (d : Disk) (o : Observation) : Prop where
  record : ∃ f, d.pending = some f ∧ o.bytes = f.bytes ∧ f.bytes.length ≤ maxRecord
  archive : o.archive = archiveName O o.bytes
  checked : checkArchive d o.archive o.bytes = .ok ()

theorem record_of_recordBytes {bytes : Bytes} (h : recordBytes d = .ok (some bytes)) :
    ∃ f, d.pending = some f ∧ bytes = f.bytes ∧ f.bytes.length ≤ maxRecord := by
  obtain ⟨hbytes, hfile⟩ := recordBytes_eq_ok.mp h
  obtain ⟨f, hf, rfl⟩ := Option.map_eq_some_iff.mp hbytes.symm
  exact ⟨f, hf, rfl, (hfile f hf).1⟩

theorem quiet_inspectLocked {lease : File} :
    Quiet (inspectLocked O locks lease resolve) d (Observes O d) := by
  refine quiet_bind shows_look.quiet ?_
  rintro _ ⟨⟩
  refine quiet_bind_lift fun _ _ => quiet_bind_lift fun bytes hbytes => ?_
  refine quiet_bind_lift fun b hb => ?_
  obtain rfl := okOr_eq_ok.mp hb
  refine quiet_bind_lift fun _ _ => quiet_bind_lift fun _ _ => quiet_bind_lift fun _ _ => ?_
  refine quiet_bind quiet_consistentCurrent fun _ _ => quiet_bind shows_look.quiet ?_
  rintro _ ⟨⟩
  refine quiet_bind_lift fun _ _ => quiet_bind_lift fun _ _ => quiet_bind_lift fun _ _ => ?_
  refine quiet_bind_lift fun _ _ => quiet_bind_lift fun _ _ => quiet_bind_lift fun _ hchecked => ?_
  exact quiet_pure ⟨record_of_recordBytes hbytes, rfl, hchecked⟩

theorem quiet_inspectIncompleteLocked {lease : File} :
    Quiet (inspectIncompleteLocked O locks lease resolve) d (Observes O d) := by
  refine quiet_bind shows_look.quiet ?_
  rintro _ ⟨⟩
  refine quiet_bind_lift fun _ _ => quiet_bind_lift fun _ _ => quiet_bind_lift ?_
  rintro ⟨bytes, identity⟩ hincomplete
  simp only [incompleteBytes, bind_eq_ok, pure_eq_ok, okOr_eq_ok, Prod.mk.injEq] at hincomplete
  obtain ⟨_, -, _, hbytes, _, rfl, _, -, rfl, -⟩ := hincomplete
  refine quiet_bind quiet_consistentCurrent fun _ _ => quiet_bind shows_look.quiet ?_
  rintro _ ⟨⟩
  refine quiet_bind_lift fun _ _ => quiet_bind_lift fun _ _ => quiet_bind_lift fun _ _ => ?_
  refine quiet_bind_lift fun _ _ => quiet_bind_lift fun _ _ => quiet_bind_lift fun _ hchecked => ?_
  exact quiet_pure ⟨record_of_recordBytes hbytes, rfl, hchecked⟩

/-- A retention that is not cut off inside the archive leaves a genuine one. -/
theorem endsOn_createArchive {f : File} (h : Kept O known d) (hknown : f.bytes ∈ known)
    (hshort : f.bytes.length ≤ maxRecord) (hwhole : f.bytes ≠ [] → Whole 4 replies) :
    EndsOn (createArchive (archiveName O f.bytes) f.bytes) d replies
      (fun _ s => Kept O known s.world) (Kept O known) := by
  have hkept : ∀ {u : Bytes} {d' : Disk}, Holding (archiveName O f.bytes) u d d' → u = f.bytes →
      Kept O known d' := fun ha hu => h.holding hknown hshort ha hu
  -- a cut inside the archive: there is nothing to write, or the replies go on
  have hcut : ∀ {u : Bytes} {d' : Disk}, Holding (archiveName O f.bytes) u d d' →
      u <+: f.bytes → (f.bytes ≠ [] → False) → Kept O known d' := fun ha hu hne => by
    have hnil : f.bytes = [] := by
      by_contra hbytes
      exact hne hbytes
    rw [hnil, List.prefix_nil] at hu
    exact hkept ha (hu.trans hnil.symm)
  have hinside : ∀ {r : Reply Seen} {rest : List (Reply Seen)}, replies = r :: rest →
      Applied (r :: rest) → f.bytes ≠ [] → Inside 4 (r :: rest) := fun hreplies happlied hne => by
    have := hwhole hne
    rw [hreplies] at this
    exact this happlied
  have hcreated := fun seen => (@holding_create d (archiveName O f.bytes)) seen
  refine endsOn_bind_call (fun seen => rfl) (fun _ => h) (fun seen message rest hreplies => ?_)
    fun seen rest hreplies => ?_
  · exact hcut (hcreated seen) List.nil_prefix fun hne => hinside hreplies trivial hne
  have hrest : f.bytes ≠ [] → Inside 3 rest := hinside hreplies trivial
  refine endsOn_bind_call (fun seen => rfl)
    (fun hstop => hcut (hcreated seen) List.nil_prefix fun hne => hstop (hrest hne).applied)
    (fun seen' message rest' hreplies' => ?_) fun seen' rest' hreplies' => ?_
  · refine hcut ((hcreated seen).chmod seen') List.nil_prefix fun hne => ?_
    have := hrest hne
    rw [hreplies'] at this
    exact this
  have hrest' : f.bytes ≠ [] → Inside 2 rest' := fun hne => by
    have := hrest hne
    rw [hreplies'] at this
    exact this
  have hchanged := (hcreated seen).chmod seen'
  refine endsOn_bind_call (a := fun seen => seen.part _) (fun seen => rfl)
    (fun hstop => hcut hchanged List.nil_prefix fun hne => hstop (hrest' hne).applied)
    (fun seen'' message rest'' hreplies'' => ?_) fun seen'' rest'' hreplies'' => ?_
  · refine hcut (hchanged.append _ seen'') (List.take_prefix _ _) fun hne => ?_
    have := hrest' hne
    rw [hreplies''] at this
    exact this
  have hpart := hchanged.append (f.bytes.take (seen''.part f.bytes)) seen''
  have hwrote : [] ++ f.bytes.take (seen''.part f.bytes) ++ f.bytes.drop (seen''.part f.bytes) =
      f.bytes := by
    rw [List.nil_append, List.take_append_drop]
  have hall := fun seen => hkept (hpart.append (f.bytes.drop (seen''.part f.bytes)) seen) hwrote
  refine endsOn_call (fun seen => rfl)
    (fun hstop => hcut hpart (List.take_prefix _ _) fun hne => hstop ?_)
    (fun seen _ _ _ => hall seen) fun seen _ _ => hall seen
  have := hrest' hne
  rw [hreplies''] at this
  exact this

theorem endsOn_retainBytes {f : File} (h : Kept O known d) (hf : d.pending = some f)
    (hknown : f.bytes ∈ known) (hshort : f.bytes.length ≤ maxRecord)
    (hs : RetainSpared O d replies) :
    EndsOn (retainBytes (archiveName O f.bytes) f.bytes) d replies
      (fun _ s => Kept O known s.world) (Kept O known) := by
  refine endsOn_bind_quiet shows_look.quiet h ?_
  rintro _ ⟨⟩
  refine endsOn_bind_lift h fun retained hretained => ?_
  have hlast : ∀ (s : Running Disk Seen), Kept O known s.world → EndsOn (do
      let d ← look
      let retained ← archivedBytes d (archiveName O f.bytes)
      liftM (refuseIf (retained != some f.bytes)
        "model validation retention changed; preserve state") : Calls Disk Seen Unit)
      s.world s.replies (fun _ s => Kept O known s.world) (Kept O known) := by
    intro s hs
    refine endsOn_quiet (P := fun _ => True) ?_ hs fun _ _ => hs
    exact quiet_bind shows_look.quiet fun _ _ => quiet_bind_lift fun _ _ =>
      quiet_lift fun _ _ => trivial
  cases hretained' : retained with
  | some r => exact endsOn_bind_lift h fun _ _ => hlast ⟨d, replies⟩ h
  | none =>
    have hnone : d.archives[archiveName O f.bytes]? = none := by
      simp only [archivedBytes, bind_eq_ok, boundedFile_eq_ok] at hretained
      obtain ⟨-, -, hretained, -⟩ := hretained
      rw [hretained'] at hretained
      exact Option.map_eq_none_iff.mp hretained.symm
    exact endsOn_bind ((endsOn_createArchive h hknown hshort fun hne => hs f hf hne hnone).mono
      fun _ s hs => hlast s hs)

/-- The record is removed. -/
theorem endsOn_removePending (h : Kept O known d) (name : String) :
    EndsOn (do removePending; pure name : Calls Disk Seen String) d replies
      (fun _ s => Kept O known s.world) (Kept O known) :=
  endsOn_bind_call (fun _ => rfl) (fun _ => h) (fun _ _ _ _ => h.withoutPending) fun _ _ _ =>
    endsOn_pure h.withoutPending

/-- **`retain_abandoned` keeps the invariant** where it is spared. -/
theorem Kept.retainAbandoned {reviewed : String} (h : Kept O known d)
    (hknown : ∀ f, d.pending = some f → f.bytes ∈ known) (hs : RetainSpared O d replies) :
    Kept O known ((Models.retainAbandoned O who locks reviewed resolve).leaves d replies) := by
  suffices hends : EndsOn (Models.retainAbandoned O who locks reviewed resolve) d replies
      (fun _ s => Kept O known s.world) (Kept O known) from hends.leaves fun _ _ hs => hs
  refine endsOn_bind_lift h fun _ _ => endsOn_bind_quiet quiet_independentTypedOwner h fun _ _ => ?_
  refine endsOn_bind_quiet quiet_recoveryLock h fun lease _ => ?_
  refine endsOn_bind_quiet quiet_inspectLocked h fun o ho => endsOn_bind_lift h fun _ _ => ?_
  obtain ⟨⟨f, hf, hbytes, hshort⟩, harchive, -⟩ := ho
  rw [harchive, hbytes]
  refine endsOn_bind ((endsOn_retainBytes h hf (hknown f hf) hshort hs).mono ?_)
  rintro _ ⟨d', replies'⟩ h'
  refine endsOn_bind_quiet quiet_inspectLocked h' fun _ _ => ?_
  refine endsOn_bind_quiet shows_look.quiet h' fun _ _ => ?_
  refine endsOn_bind_lift h' fun _ _ => endsOn_bind_lift h' fun _ _ => ?_
  refine endsOn_bind_lift h' fun _ _ => endsOn_bind_lift h' fun _ _ => ?_
  refine endsOn_bind_lift h' fun _ _ => endsOn_bind_lift h' fun _ _ => ?_
  exact endsOn_bind_lift h' fun _ _ => endsOn_removePending h' _

theorem Kept.retainIncomplete {reviewed : String} (h : Kept O known d)
    (hknown : ∀ f, d.pending = some f → f.bytes ∈ known) (hs : RetainSpared O d replies) :
    Kept O known ((Models.retainIncomplete O locks reviewed resolve).leaves d replies) := by
  suffices hends : EndsOn (Models.retainIncomplete O locks reviewed resolve) d replies
      (fun _ s => Kept O known s.world) (Kept O known) from hends.leaves fun _ _ hs => hs
  refine endsOn_bind_lift h fun _ _ => endsOn_bind_quiet shows_look.quiet h fun _ _ => ?_
  refine endsOn_bind_lift h fun _ _ => endsOn_bind_quiet quiet_recoveryLock h fun lease _ => ?_
  refine endsOn_bind_quiet quiet_inspectIncompleteLocked h fun o ho =>
    endsOn_bind_lift h fun _ _ => ?_
  obtain ⟨⟨f, hf, hbytes, hshort⟩, harchive, -⟩ := ho
  rw [harchive, hbytes]
  refine endsOn_bind ((endsOn_retainBytes h hf (hknown f hf) hshort hs).mono ?_)
  rintro _ ⟨d', replies'⟩ h'
  refine endsOn_bind_quiet quiet_inspectIncompleteLocked h' fun _ _ => ?_
  refine endsOn_bind_quiet shows_look.quiet h' fun _ _ => ?_
  refine endsOn_bind_lift h' fun _ _ => endsOn_bind_lift h' fun _ _ => ?_
  refine endsOn_bind_lift h' fun _ _ => endsOn_bind_lift h' fun _ _ => ?_
  refine endsOn_bind_lift h' fun _ _ => endsOn_bind_lift h' fun _ _ => ?_
  refine endsOn_bind_lift h' fun _ _ => ?_
  exact endsOn_bind_lift h' fun _ _ => endsOn_removePending h' _

/-! ## Whole runs -/

theorem Kept.step (h : Kept O known d) (hknown : ∀ f, d.pending = some f → f.bytes ∈ known)
    {s : TrialStep} (hs : s.Spared O d) : Kept O known (s.leaves O d) := by
  obtain ⟨call, replies⟩ := s
  cases call with
  | begin p who locks incident => exact h.begin hs
  | retainAbandoned who locks reviewed => exact h.retainAbandoned hknown hs
  | retainIncomplete locks reviewed => exact h.retainIncomplete hknown hs

theorem Kept.run : ∀ {steps : List TrialStep} {d : Disk}, Kept O known d →
    (∀ f, d.pending = some f → f.bytes ∈ known) → Spared O known d steps →
      Kept O known (trialRun O d steps) ∧
        ∀ f, (trialRun O d steps).pending = some f → f.bytes ∈ known
  | [], _, h, hknown, _ => ⟨h, hknown⟩
  | s :: steps, d, h, hknown, ⟨hs, hnext, hrest⟩ =>
    (@Kept.run steps (s.leaves O d)) (h.step hknown hs) hnext hrest

/-- **An interrupted trial can be retired.** A record that was cut is incomplete JSON and never
decodes, a whole one decodes to itself and is never incomplete; and in a run whose calls are not
cut off inside an archive, or between the creation of a record and its mode, a record that is left
when no trial is running is reported by the inspection that fits it, and the retention under that
review archives its bytes and removes it. -/
theorem trial_retired {steps : List TrialStep} (hO : O.Sound known) (h : Kept O known d)
    (hfresh : d.pending = none) (hs : Spared O known d steps) :
    (∀ r : Record, decodeAs Record.ofJson r.bytes = some r ∧ fromSlice r.bytes ≠ .error .eof ∧
      ∀ cut, cut <+: r.bytes → cut ≠ r.bytes →
        fromSlice cut = .error .eof ∧ ∀ resolve r', Record.decode O cut resolve ≠ .ok r') ∧
    ∀ f who locks, (trialRun O d steps).pending = some f → locks.Free →
      (∀ r, Record.decode O f.bytes O.profile = .ok r → r.controllerPid ≠ who.pid) →
        (∃ o, Shows (inspect O who locks O.profile) (trialRun O d steps) (.ok o) ∧
          Succeeds 5 (retainAbandoned O who locks o.review O.profile) (trialRun O d steps)
            (Retired f)) ∨
        (∃ o, Shows (inspectIncomplete O locks O.profile) (trialRun O d steps) (.ok o) ∧
          Succeeds 5 (retainIncomplete O locks o.review O.profile) (trialRun O d steps)
            (Retired f)) := by
  constructor
  · intro r
    refine ⟨r.decodeAs_bytes, fun heof => ?_, ?_⟩
    · rw [r.fromSlice_bytes] at heof
      cases heof
    intro cut hprefix hne
    have hcut := Record.fromSlice_cut hprefix hne
    exact ⟨hcut, fun _ r' => Record.not_decode_of_eof hcut r'⟩
  · intro f who locks hf hlocks hwho
    have hnone : ∀ f, d.pending = some f → f.bytes ∈ known := fun f hf => by
      rw [hfresh] at hf
      cases hf
    obtain ⟨hkept, hknown⟩ := h.run hnone hs
    exact hkept.retires hO hf (hknown f hf) hlocks hwho

/-! ## Where the condition is needed -/

/-- `begin` gets through where the candidate is in place and the lock is free. -/
theorem begin_succeeds {l : File} {incident : { bytes : Bytes // bytes.length = 16 }}
    (hO : O.Sound known) (hp : O.profile p.id = .ok p) (hpending : d.pending = none)
    (hl : d.lease = some l) (hmode : l.mode &&& 0o7777 = 0o644) (hempty : l.bytes = [])
    (hc : Consistent O (candidateOnly p) p d.config) (hflock : locks.flock = true)
    (hposix : locks.posix = true) :
    Succeeds 4 (Guard.begin O p who locks incident) d fun _ d' =>
      ∃ f, f.mode = 0o644 ∧ f.bytes = (trialRecord O p who l incident d.config).bytes ∧
        d' = { d with pending := some f } := by
  have hchecked : checkedLock d = .ok l := checkedLock_eq_ok.mpr ⟨hl, hmode, hempty⟩
  have hlock : Shows (lockFile true) d (.ok l) := by
    refine shows_bind shows_look ?_
    simp only [hl, Option.isNone_some, Bool.and_false, Bool.false_eq_true, if_false]
    exact shows_bind shows_look (by rw [← hchecked]; exact shows_lift _)
  refine succeeds_bind_shows shows_look (succeeds_bind_refuseIf (by simp [hpending]) ?_)
  refine succeeds_bind_shows hlock (succeeds_bind_refuseIf (by simp [hflock]) ?_)
  refine succeeds_bind_refuseIf (by simp [hposix]) (succeeds_bind_shows hc.shows ?_)
  refine succeeds_bind_refuseIf rfl ?_
  -- the four changes of the record
  refine succeeds_bind (n := 1) (k := 3) (T := fun _ d' => ∃ f, f.bytes = [] ∧
    d' = { d with pending := some f })
    (succeeds_call fun seen => ⟨.unit, _, rfl, createdFile 0o644 seen, rfl, rfl⟩) ?_
  rintro _ _ ⟨f, hbytes, rfl⟩
  refine succeeds_bind (n := 1) (k := 2) (T := fun _ d' => ∃ f, f.bytes = [] ∧ f.mode = 0o644 ∧
    d' = { d with pending := some f })
    (succeeds_call fun seen => ⟨.unit, _, rfl, f.chmod 0o644 seen, hbytes, rfl, rfl⟩) ?_
  rintro _ _ ⟨f₁, hbytes₁, hmode₁, rfl⟩
  simp only [writeAll, bind_assoc]
  refine succeeds_bind (n := 1) (k := 1) (T := fun n d' => ∃ f,
    f.bytes = (trialRecord O p who l incident d.config).bytes.take n ∧ f.mode = 0o644 ∧
      d' = { d with pending := some f })
    (succeeds_call fun seen => ⟨seen.part _, _, rfl, f₁.append _ seen, ?_, hmode₁, rfl⟩) ?_
  · rw [File.append, hbytes₁, List.nil_append]
    rfl
  rintro n _ ⟨f₂, hbytes₂, hmode₂, rfl⟩
  refine succeeds_bind (n := 1) (k := 0) (T := fun _ d' => ∃ f,
    f.bytes = (trialRecord O p who l incident d.config).bytes ∧ f.mode = 0o644 ∧
      d' = { d with pending := some f })
    (succeeds_call fun seen => ⟨.unit, _, rfl, f₂.append _ seen, ?_, hmode₂, rfl⟩) ?_
  · rw [File.append, hbytes₂]
    exact List.take_append_drop _ _
  rintro _ _ ⟨f₃, hbytes₃, hmode₃, rfl⟩
  have hcheck : Shows (Guard.check O ⟨(trialRecord O p who l incident d.config).bytes,
      trialRecord O p who l incident d.config⟩ p who) { d with pending := some f₃ } (.ok ()) := by
    have hbytes : recordBytes { d with pending := some f₃ } = .ok (some f₃.bytes) := by
      refine recordBytes_eq_ok.mpr ⟨rfl, fun f hf => ?_⟩
      cases hf
      exact ⟨by rw [hbytes₃]; exact length_trialRecord_le hO hp, by rw [hmode₃]; rfl⟩
    have hlocked : checkedLock { d with pending := some f₃ } = .ok l := hchecked
    have hsnapshot : activationSnapshot d.config = .ok d.config :=
      activationSnapshot_eq_ok.mpr ⟨rfl, hc.bounded⟩
    refine shows_bind shows_look (shows_bind_lift hlocked (shows_bind_lift hsnapshot ?_))
    refine shows_bind_lift hbytes ?_
    have hok : ∀ {c : Bool} {message : String}, c = false →
        Shows (liftM (refuseIf c message) : Calls Disk Seen Unit) { d with pending := some f₃ }
          (.ok ()) := fun hc => by
      rw [← refuseIf_eq_ok.mpr hc]
      exact shows_lift _
    exact hok (by simp [trialRecord, hbytes₃])
  exact succeeds_bind_shows hcheck ((shows_pure _).succeeds ⟨f₃, hmode₃, hbytes₃, rfl⟩)

/-- The directory that a trial leaves when every call of `begin` is done. -/
theorem trialRun_begun {l : File} {incident : { bytes : Bytes // bytes.length = 16 }}
    {replies : List (Reply Seen)} (hO : O.Sound known) (hp : O.profile p.id = .ok p)
    (hpending : d.pending = none) (hl : d.lease = some l) (hmode : l.mode &&& 0o7777 = 0o644)
    (hempty : l.bytes = []) (hc : Consistent O (candidateOnly p) p d.config)
    (hflock : locks.flock = true) (hposix : locks.posix = true) (hlength : 4 ≤ replies.length)
    (hdone : AllDone replies) :
    ∃ f, f.mode = 0o644 ∧ f.bytes = (trialRecord O p who l incident d.config).bytes ∧
      trialRun O d [⟨.begin p who locks incident, replies⟩] = { d with pending := some f } := by
  obtain ⟨g, d', k, -, hexec, f, hmode', hbytes, rfl⟩ := (@begin_succeeds _ _ _ _ _ who _ incident)
    hO hp hpending hl hmode hempty hc hflock hposix replies hlength hdone
  refine ⟨f, hmode', hbytes, ?_⟩
  simp only [trialRun, List.foldl_cons, List.foldl_nil, TrialStep.leaves, Calls.leaves]
  rw [hexec]

theorem spared_begin {incident : { bytes : Bytes // bytes.length = 16 }}
    {replies : List (Reply Seen)} {f : File} (h : BeginSpared O p d replies)
    (hf : (trialRun O d [⟨.begin p who locks incident, replies⟩]).pending = some f)
    (hknown : f.bytes ∈ known) : Spared O known d [⟨.begin p who locks incident, replies⟩] := by
  refine ⟨h, fun g hg => ?_, trivial⟩
  simp only [trialRun, List.foldl_cons, List.foldl_nil] at hf
  obtain rfl : f = g := Option.some.inj (hf.symm.trans hg)
  exact hknown

theorem trialRun_retainAbandoned (O : Outside) (d : Disk) (steps : List TrialStep) (who : Process)
    (locks : Locks) (reviewed : String) (replies : List (Reply Seen)) :
    trialRun O d (steps ++ [⟨.retainAbandoned who locks reviewed, replies⟩]) =
      (retainAbandoned O who locks reviewed O.profile).leaves (trialRun O d steps) replies := by
  simp only [trialRun, List.foldl_append, List.foldl_cons, List.foldl_nil, TrialStep.leaves]

theorem Record.bytes_ne_nil (r : Record) : r.bytes ≠ [] := by
  intro hnil
  have hread := r.fromSlice_bytes
  rw [hnil] at hread
  cases hread

/-- A retention that is killed behind the creation of the archive leaves an empty one. -/
theorem Inspectable.retainAbandoned_cut {f l : File} {r : Record} {reviewed : String} {seen : Seen}
    (h : Inspectable O p f l d) (hlocks : locks.Free) (hO : O.Sound known)
    (hr : Complete O f l r) (hwho : r.controllerPid ≠ who.pid)
    (hnone : d.archives[archiveName O f.bytes]? = none)
    (hreviewed : reviewed = (abandonedObservation O p f d.config).review) :
    (Models.retainAbandoned O who locks reviewed O.profile).leaves d [.done seen] =
      { d with archives := d.archives.insert (archiveName O f.bytes) (createdFile 0o600 seen) } := by
  subst hreviewed
  have howner := h.independentTypedOwner hr hwho
  have hlock := h.recoveryLock hlocks
  have hobserved := h.inspectLocked hlocks hr
  have harchived := h.archivedBytes
  rw [hnone] at harchived
  refine (leaves_bind_lift (hO.decode_digest _)).trans (howner.leaves_bind.trans ?_)
  refine hlock.leaves_bind.trans (hobserved.leaves_bind.trans ?_)
  refine (leaves_bind_lift (a := ()) (refuseIf_eq_ok.mpr (by simp))).trans ?_
  have hcut : Mut.exec (Models.retainBytes (archiveName O f.bytes) f.bytes) ⟨d, [.done seen]⟩ =
      (.error (.refused killed),
        ⟨{ d with archives := d.archives.insert (archiveName O f.bytes) (createdFile 0o600 seen) },
          []⟩) := by
    rw [Models.retainBytes, Mut.exec_bind_of_ok (shows_look _), Mut.exec_bind_of_ok
      (show Mut.exec (liftM (Models.archivedBytes d (archiveName O f.bytes)) :
        Calls Disk Seen (Option Bytes)) ⟨d, [.done seen]⟩ = (.ok none, _) by rw [harchived]; rfl)]
    rfl
  have hcut' : Mut.exec (Models.retainBytes (abandonedObservation O p f d.config).archive
      (abandonedObservation O p f d.config).bytes) ⟨d, [.done seen]⟩ = _ := hcut
  unfold Calls.leaves
  rw [Mut.exec_bind_of_error hcut']

/-- **An archive that is not the record's blocks both inspections.** -/
theorem stuck_of_archive {f g : File} (hf : d.pending = some f)
    (hg : d.archives[archiveName O f.bytes]? = some g) (hne : g.bytes ≠ f.bytes)
    (replies : List (Reply Seen)) (o : Observation) :
    ((inspect O who locks resolve).exec ⟨d, replies⟩).1 ≠ .ok o ∧
      ((inspectIncomplete O locks resolve).exec ⟨d, replies⟩).1 ≠ .ok o := by
  have hstuck : ∀ o, ¬ Observes O d o := by
    rintro o ⟨⟨f', hf', hbytes, -⟩, harchive, hchecked⟩
    obtain rfl : f = f' := Option.some.inj (hf.symm.trans hf')
    simp only [checkArchive, archivedBytes, bind_eq_ok, boundedFile_eq_ok, refuseIf_eq_ok] at hchecked
    obtain ⟨_, ⟨-, -, rfl, -⟩, hsame⟩ := hchecked
    rw [harchive, hbytes, hg] at hsame
    exact hne (by simpa using hsame)
  constructor
  · refine Quiet.ne_ok ?_ replies o
    refine quiet_bind quiet_independentTypedOwner fun _ _ => ?_
    exact quiet_bind quiet_recoveryLock fun _ _ => quiet_inspectLocked.mono hstuck
  · refine Quiet.ne_ok ?_ replies o
    refine quiet_bind shows_look.quiet fun _ _ => quiet_bind_lift fun _ _ => ?_
    exact quiet_bind quiet_recoveryLock fun _ _ => quiet_inspectIncompleteLocked.mono hstuck

/-! ## A trial on a small installation -/

def trialProfile : Profile where
  id := "small"
  sha256 := repeatText "a" 64
  governed := none

/-- An image with one profile; what is digested is cut to 32 bytes. -/
def trialOutside : Outside where
  sha256 bytes := (bytes ++ List.replicate 32 0).take 32
  catalog := [trialProfile]
  catalogBinding := repeatText "b" 64
  authority _ := .ok ()
  weights _ := .ok ()

def trialSelection : Bytes :=
  toVec (.object [("id", .string "small"), ("schema_version", .number 2)])

def trialIdentity : FileIdentity := ⟨1, 7, 0, 0, by decide⟩

/-- The profile is in place and the lock was taken before. -/
def trialDisk : Disk where
  config := ⟨some trialSelection, some (referenceEnvironment trialProfile),
    some (List.replicate 64 48)⟩
  marker := none
  backup := none
  rollback := none
  quarantine := none
  pending := none
  lease := some ⟨[], 0o644, trialIdentity⟩
  archives := ∅

def trialProcess (pid : UInt32) (h : pid ≠ 0) (h' : pid.toNat ≤ 2 ^ 31 - 1) : Process where
  pid := pid
  startTicks := 5
  bootId := hex (List.replicate 16 1)
  pid_ne := h
  pid_le := h'
  startTicks_ne := by decide
  bootId_hex := ⟨_, decode_hex (by decide)⟩
  bootId_ne := by decide

def trialLocks : Locks := ⟨true, true, none⟩

def trialSeen : Seen := ⟨trialIdentity, 0o022, 0⟩

def trialIncident : { bytes : Bytes // bytes.length = 16 } := ⟨List.replicate 16 2, by decide⟩

/-- The controller of the trial, and an operator. -/
def trialController : Process := trialProcess 42 (by decide) (by decide)

def trialOperator : Process := trialProcess 43 (by decide) (by decide)

/-- The record of the trial. -/
def trialFile : File where
  bytes := (trialRecord trialOutside trialProfile trialController ⟨[], 0o644, trialIdentity⟩
    trialIncident trialDisk.config).bytes
  mode := 0o644
  identity := trialIdentity

theorem trialOutside_sound : trialOutside.Sound {trialFile.bytes} where
  length bytes := by simp [trialOutside]
  apart := Set.injOn_singleton _ _
  ids := by decide
  weights := by decide
  binding := by decide

theorem trialConsistent {resolve : String → Result Profile}
    (h : resolve trialProfile.id = .ok trialProfile) :
    Consistent trialOutside resolve trialProfile trialDisk.config where
  bounded :=
    { selection := fun v hv => by
        cases hv
        exact (length_toVec_le _).trans (by decide)
      environment := fun v hv => by
        cases hv
        decide
      key := fun v hv => by
        cases hv
        decide }
  prior := priorRestoreProfile_some.mpr ⟨⟨_, ⟨_, rfl, rfl⟩, rfl, rfl, by decide⟩, h⟩
  weights := rfl

def trialDone : Reply Seen := .done trialSeen

/-- A trial begins and its controller dies. -/
def trialBegin : TrialStep :=
  ⟨.begin trialProfile trialController trialLocks trialIncident, List.replicate 4 trialDone⟩

/-- The operator retains the record and is killed when the archive has been created. -/
def trialRetain : TrialStep :=
  ⟨.retainAbandoned trialOperator trialLocks
    (abandonedObservation trialOutside trialProfile trialFile trialDisk.config).review, [trialDone]⟩

theorem trialProfile_resolves : trialOutside.profile trialProfile.id = .ok trialProfile := by
  decide

theorem trial_begun : ∃ f, f.mode = 0o644 ∧ f.bytes = trialFile.bytes ∧
    trialRun trialOutside trialDisk [trialBegin] = { trialDisk with pending := some f } := by
  have hdone : AllDone (List.replicate 4 trialDone) := fun r hr =>
    ⟨trialSeen, List.eq_of_mem_replicate hr⟩
  have hlength : 4 ≤ (List.replicate 4 trialDone).length := by rw [List.length_replicate]
  exact @trialRun_begun _ _ trialDisk trialLocks _ trialController
    ⟨[], 0o644, trialIdentity⟩ trialIncident _ trialOutside_sound trialProfile_resolves rfl rfl rfl
    rfl (trialConsistent rfl) rfl rfl hlength hdone

theorem trial_inspectable {f : File} (hmode : f.mode = 0o644) (hbytes : f.bytes = trialFile.bytes) :
    Inspectable trialOutside trialProfile f ⟨[], 0o644, trialIdentity⟩
      { trialDisk with pending := some f } where
  marker := rfl
  backup := rfl
  pending := rfl
  mode := hmode
  short := by
    rw [hbytes]
    exact length_trialRecord_le trialOutside_sound trialProfile_resolves
  lease := rfl
  leaseMode := rfl
  leaseEmpty := rfl
  consistent := trialConsistent trialProfile_resolves
  archive g hg := by cases hg

/-- **A cut inside the archive is not retired**: after it, no inspection accepts the record, by
whomever and however often it is tried. -/
theorem trial_stuck :
    ∃ f, (trialRun trialOutside trialDisk [trialBegin, trialRetain]).pending = some f ∧
      ∀ who locks resolve replies o,
        ((inspect trialOutside who locks resolve).exec
          ⟨trialRun trialOutside trialDisk [trialBegin, trialRetain], replies⟩).1 ≠ .ok o ∧
        ((inspectIncomplete trialOutside locks resolve).exec
          ⟨trialRun trialOutside trialDisk [trialBegin, trialRetain], replies⟩).1 ≠ .ok o := by
  obtain ⟨f, hmode, hbytes, hrun⟩ := trial_begun
  have hinspectable := trial_inspectable hmode hbytes
  have hcomplete : Complete trialOutside f ⟨[], 0o644, trialIdentity⟩
      (trialRecord trialOutside trialProfile trialController ⟨[], 0o644, trialIdentity⟩ trialIncident
        trialDisk.config) :=
    ⟨hbytes ▸ decode_trialRecord trialOutside_sound trialProfile_resolves hinspectable.consistent,
      rfl, rfl⟩
  have hreview : (abandonedObservation trialOutside trialProfile trialFile trialDisk.config).review =
      (abandonedObservation trialOutside trialProfile f trialDisk.config).review := by
    rw [abandonedObservation, abandonedObservation, hbytes]
  have hcut := (@Inspectable.retainAbandoned_cut _ _ _ trialLocks _ trialOperator _ _ _ _ trialSeen)
    hinspectable ⟨rfl, rfl⟩ trialOutside_sound hcomplete (by decide) rfl hreview
  have hleft : trialRun trialOutside trialDisk [trialBegin, trialRetain] =
      { trialDisk with
        pending := some f
        archives := trialDisk.archives.insert (archiveName trialOutside f.bytes)
          (createdFile 0o600 trialSeen) } := by
    refine (trialRun_retainAbandoned trialOutside trialDisk [trialBegin] _ _ _ _).trans ?_
    rw [hrun]
    exact hcut
  rw [hleft]
  refine ⟨f, rfl, fun who locks resolve replies o => ?_⟩
  -- the archive is empty, and no record is
  refine stuck_of_archive rfl Table.get_insert_self (fun hempty => ?_) replies o
  exact Record.bytes_ne_nil _ (hbytes.symm.trans hempty.symm)

/-- A trial whose controller dies behind three bytes of its record. -/
def trialCut : TrialStep :=
  ⟨.begin trialProfile trialController trialLocks trialIncident,
    [trialDone, trialDone, .done { trialSeen with written := 3 }]⟩

/-- The step leaves a record of these bytes, and it is retired. -/
def RetiredAfter (step : TrialStep) (bytes : Bytes) : Prop :=
  ∃ f, (trialRun trialOutside trialDisk [step]).pending = some f ∧ f.bytes = bytes ∧
    ((∃ o, Shows (inspect trialOutside trialOperator trialLocks trialOutside.profile)
        (trialRun trialOutside trialDisk [step]) (.ok o) ∧
      Succeeds 5 (retainAbandoned trialOutside trialOperator trialLocks o.review
        trialOutside.profile) (trialRun trialOutside trialDisk [step]) (Retired f)) ∨
    (∃ o, Shows (inspectIncomplete trialOutside trialLocks trialOutside.profile)
        (trialRun trialOutside trialDisk [step]) (.ok o) ∧
      Succeeds 5 (retainIncomplete trialOutside trialLocks o.review trialOutside.profile)
        (trialRun trialOutside trialDisk [step]) (Retired f)))

theorem trial_retired_sample : RetiredAfter trialBegin trialFile.bytes ∧
    RetiredAfter trialCut (trialFile.bytes.take 3) := by
  have hkept : ∀ known, Kept trialOutside known trialDisk := fun _ =>
    ⟨rfl, rfl, fun l hl => by cases hl; rfl, fun _ g hg => (by cases hg), fun f hf => by cases hf⟩
  constructor
  · obtain ⟨f, -, hbytes, hrun⟩ := trial_begun
    have hpending : (trialRun trialOutside trialDisk [trialBegin]).pending = some f := by rw [hrun]
    have hwhole : Whole 2 (atCreation trialDisk (List.replicate 4 trialDone)) := fun _ => trivial
    have hspared : Spared trialOutside {trialFile.bytes} trialDisk [trialBegin] :=
      spared_begin ⟨trialProfile_resolves, .inl hwhole⟩ hpending hbytes
    refine ⟨f, hpending, hbytes, (trial_retired trialOutside_sound (hkept _) rfl hspared).2 f
      trialOperator trialLocks hpending ⟨rfl, rfl⟩ fun r hr => ?_⟩
    rw [hbytes] at hr
    have hdecode := (@decode_trialRecord _ _ _ trialController ⟨[], 0o644, trialIdentity⟩
      trialIncident _) trialOutside_sound trialProfile_resolves
      (trialConsistent trialProfile_resolves)
    obtain rfl := Except.ok.inj (hr.symm.trans hdecode)
    exact (by decide : (42 : UInt32) ≠ 43)
  · have hbytes : (trialRun trialOutside trialDisk [trialCut]).pending.map File.bytes =
        some (trialFile.bytes.take 3) := by
      decide +kernel
    obtain ⟨f, hpending, hbytes⟩ := Option.map_eq_some_iff.mp hbytes
    have hwhole : Whole 2 (atCreation trialDisk trialCut.replies) := fun _ => trivial
    have hsound : trialOutside.Sound {f.bytes} :=
      { trialOutside_sound with apart := Set.injOn_singleton _ _ }
    have hspared : Spared trialOutside {f.bytes} trialDisk [trialCut] :=
      spared_begin ⟨trialProfile_resolves, .inl hwhole⟩ hpending rfl
    refine ⟨f, hpending, hbytes, (trial_retired hsound (hkept _) rfl hspared).2 f trialOperator
      trialLocks hpending ⟨rfl, rfl⟩ fun r hr => ?_⟩
    have heof := Record.fromSlice_cut (List.take_prefix 3 trialFile.bytes) (by decide +kernel)
    rw [hbytes] at hr
    exact absurd hr (Record.not_decode_of_eof heof r)

end LumaOS.Models
