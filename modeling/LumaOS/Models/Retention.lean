import LumaOS.Models.Validation
import LumaOS.Base.Uncut

/-!
# Inspecting and retaining the record of a trial

A record that was cut off anywhere is classified by its bytes alone: a strict prefix is incomplete
JSON and never decodes (`Record.fromSlice_cut`, `Record.not_decode_of_eof`), and the whole record
decodes to itself and is never incomplete (`Record.decodeAs_bytes`, `Record.fromSlice_bytes`).

`Inspectable` is a directory that both inspections accept: no activation is pending, the record and
the lock have their modes, and an archive under the record's digest holds the record's bytes. On
such a directory, with the locks free, the inspection that fits the record reports it and the
retention that fits the inspection archives and removes it (`Inspectable.retainAbandoned`,
`Inspectable.retainIncomplete`).
-/

namespace LumaOS.Models

open LumaOS.Base LumaOS.Text LumaOS.Json

/-! ## Complete and incomplete records -/

theorem Record.ofJson_fields (r : Record) : Record.ofJson (.object r.fields) = some r := by
  simp [Record.ofJson, Record.fields, Value.get, Hashes.ofJson_toJson]

theorem Record.depth_fields (r : Record) : depth (.object r.fields) ≤ maxDepth := by
  have hstring : ∀ s : String, depth (.string s) ≤ 0 := fun _ => Nat.le_refl 0
  have hhashes : depth r.hashes.toJson ≤ 1 := by
    have hs := depth_optional hstring r.hashes.selection
    have he := depth_optional hstring r.hashes.environment
    have hk := depth_optional hstring r.hashes.key
    simp only [Hashes.toJson, depth, depths]
    omega
  have h32 : ∀ n, depth (u32Json n) = 0 := fun _ => rfl
  have h64 : ∀ n, depth (u64Json n) = 0 := fun _ => rfl
  have hmax : maxDepth = 127 := rfl
  simp only [Record.fields, depth, fieldDepths, h32, h64]
  omega

/-- A complete record decodes to itself. -/
theorem Record.decodeAs_bytes (r : Record) : decodeAs Record.ofJson r.bytes = some r := by
  rw [Record.bytes, decodeAs_toVec r.depth_fields, Record.ofJson_fields]

theorem Record.fromSlice_bytes (r : Record) : fromSlice r.bytes = .ok (.object r.fields) :=
  fromSlice_toVec r.depth_fields

/-- A cut record is incomplete. -/
theorem Record.fromSlice_cut {r : Record} {cut : Bytes} (h : cut <+: r.bytes)
    (hne : cut ≠ r.bytes) : fromSlice cut = .error .eof := by
  obtain ⟨rest, hrest⟩ := h
  have hnil : rest ≠ [] := by
    rintro rfl
    exact hne (by rw [← hrest, List.append_nil])
  exact Json.fromSlice_cut r.depth_fields hnil hrest.symm

/-- What decodes is the record of the bytes. -/
theorem Record.bytes_of_decode {O : Outside} {bytes : Bytes} {resolve : String → Result Profile}
    {r : Record} (h : Record.decode O bytes resolve = .ok r) : bytes = r.bytes := by
  simp only [Record.decode, bind_eq_ok, okOr_eq_ok, refuseIf_eq_ok, pure_eq_ok,
    Bool.or_eq_false_iff, bne_eq_false_iff_eq] at h
  obtain ⟨_, -, _, -, _, hchecks, rfl⟩ := h
  exact hchecks.1.1.1.1.1.1.1.1.1.1.1.1.symm

/-- Incomplete bytes do not decode. -/
theorem Record.not_decode_of_eof {O : Outside} {bytes : Bytes} {resolve : String → Result Profile}
    (h : fromSlice bytes = .error .eof) (r : Record) : Record.decode O bytes resolve ≠ .ok r := by
  intro hr
  rw [Record.bytes_of_decode hr, Record.fromSlice_bytes] at h
  cases h

/-! ## What reading the directory shows -/

variable {O : Outside} {known : Set Bytes} {d : Disk} {locks : Locks} {p : Profile}
  {resolve : String → Result Profile}

theorem shows_look : Shows look d (.ok d) := fun _ => rfl

/-- The three files are what `p` publishes, and its weights are in place. -/
structure Consistent (O : Outside) (resolve : String → Result Profile) (p : Profile)
    (c : Configuration) : Prop where
  bounded : c.Bounded
  prior : priorRestoreProfile c resolve = .ok (some p)
  weights : O.weights p = .ok ()

theorem Consistent.resolves {c : Configuration} (h : Consistent O (candidateOnly p) p c)
    (hp : O.profile p.id = .ok p) : Consistent O O.profile p c :=
  ⟨h.bounded, priorRestoreProfile_some.mpr ⟨(priorRestoreProfile_some.mp h.prior).1, hp⟩,
    h.weights⟩

theorem Consistent.shows (h : Consistent O resolve p d.config) :
    Shows (consistentCurrent O resolve) d (.ok (d.config.hashes O, some p)) := by
  have hsnapshot : activationSnapshot d.config = .ok d.config :=
    activationSnapshot_eq_ok.mpr ⟨rfl, h.bounded⟩
  refine shows_bind shows_look (shows_bind_lift hsnapshot (shows_bind_lift h.prior ?_))
  refine shows_bind_lift h.weights (shows_bind shows_look (shows_bind_lift hsnapshot ?_))
  exact shows_bind_refuseIf (by simp) (shows_pure _)

/-- What `consistent_current` makes sure of. -/
theorem quiet_consistentCurrent : Quiet (consistentCurrent O resolve) d fun r =>
    r.1 = d.config.hashes O ∧ ∀ p, r.2 = some p → Consistent O resolve p d.config := by
  refine quiet_bind shows_look.quiet ?_
  rintro _ ⟨⟩
  refine quiet_bind_lift fun snapshot hsnapshot => ?_
  obtain ⟨rfl, hbounded⟩ := activationSnapshot_eq_ok.mp hsnapshot
  refine quiet_bind_lift fun current hcurrent => ?_
  cases current with
  | none =>
    refine quiet_bind shows_look.quiet ?_
    rintro _ ⟨⟩
    refine quiet_bind_lift fun _ _ => quiet_bind_lift fun _ _ => quiet_pure ⟨rfl, ?_⟩
    intro p hp
    cases hp
  | some q =>
    refine quiet_bind_lift fun _ hweights => quiet_bind shows_look.quiet ?_
    rintro _ ⟨⟩
    refine quiet_bind_lift fun _ _ => quiet_bind_lift fun _ _ => quiet_pure ⟨rfl, ?_⟩
    intro p hp
    cases hp
    exact ⟨hbounded, hcurrent, hweights⟩

theorem recordBytes_eq_ok {bytes : Option Bytes} : recordBytes d = .ok bytes ↔
    bytes = d.pending.map File.bytes ∧
      ∀ f, d.pending = some f → f.bytes.length ≤ maxRecord ∧ f.mode &&& 0o7777 = 0o644 := by
  simp only [recordBytes, bind_eq_ok, boundedFile_eq_ok, refuseIf_eq_ok, pure_eq_ok]
  cases d.pending with
  | none =>
    constructor
    · rintro ⟨_, ⟨rfl, -⟩, _, -, rfl⟩
      exact ⟨rfl, fun _ h => by cases h⟩
    · rintro ⟨rfl, -⟩
      exact ⟨_, ⟨rfl, fun _ h => by cases h⟩, (), rfl, rfl⟩
  | some f =>
    simp only [Option.map_some, Option.some.injEq, forall_eq', Option.any_some,
      bne_eq_false_iff_eq]
    constructor
    · rintro ⟨_, ⟨rfl, hlength⟩, _, hmode, rfl⟩
      exact ⟨rfl, hlength, hmode⟩
    · rintro ⟨rfl, hlength, hmode⟩
      exact ⟨_, ⟨rfl, hlength⟩, (), hmode, rfl⟩

theorem checkedLock_eq_ok {lease : File} : checkedLock d = .ok lease ↔
    d.lease = some lease ∧ lease.mode &&& 0o7777 = 0o644 ∧ lease.bytes = [] := by
  simp only [checkedLock, bind_eq_ok, okOr_eq_ok, refuseIf_eq_ok, pure_eq_ok,
    Bool.or_eq_false_iff, bne_eq_false_iff_eq, List.length_eq_zero_iff]
  constructor
  · rintro ⟨_, hl, _, ⟨hmode, hbytes⟩, rfl⟩
    exact ⟨hl, hmode, hbytes⟩
  · rintro ⟨hl, hmode, hbytes⟩
    exact ⟨lease, hl, (), ⟨hmode, hbytes⟩, rfl⟩

theorem activationRecordsAbsent_eq_ok : activationRecordsAbsent d = .ok () ↔
    d.marker = none ∧ d.backup = none := by
  simp [activationRecordsAbsent, bind_eq_ok, refuseIf_eq_ok]

/-- No trial is running: nobody holds the locks. -/
structure Locks.Free (locks : Locks) : Prop where
  flock : locks.flock = true
  holder : locks.holder = none

/-- A directory on which a trial's record can be inspected. -/
structure Inspectable (O : Outside) (p : Profile) (f l : File) (d : Disk) : Prop where
  marker : d.marker = none
  backup : d.backup = none
  pending : d.pending = some f
  mode : f.mode = 0o644
  short : f.bytes.length ≤ maxRecord
  lease : d.lease = some l
  leaseMode : l.mode &&& 0o7777 = 0o644
  leaseEmpty : l.bytes = []
  consistent : Consistent O O.profile p d.config
  archive : ∀ g, d.archives[archiveName O f.bytes]? = some g →
    g.bytes = f.bytes ∧ g.mode &&& 0o077 = 0

section Inspectable

variable {f l : File} (h : Inspectable O p f l d) (hlocks : locks.Free)

include h

theorem Inspectable.absent : activationRecordsAbsent d = .ok () :=
  activationRecordsAbsent_eq_ok.mpr ⟨h.marker, h.backup⟩

theorem Inspectable.recordBytes : Models.recordBytes d = .ok (some f.bytes) := by
  refine recordBytes_eq_ok.mpr ⟨by rw [h.pending]; rfl, fun g hg => ?_⟩
  rw [h.pending] at hg
  cases hg
  exact ⟨h.short, by rw [h.mode]; rfl⟩

theorem Inspectable.checkedLock : Models.checkedLock d = .ok l :=
  checkedLock_eq_ok.mpr ⟨h.lease, h.leaseMode, h.leaseEmpty⟩

theorem Inspectable.snapshot : activationSnapshot d.config = .ok d.config :=
  activationSnapshot_eq_ok.mpr ⟨rfl, h.consistent.bounded⟩

theorem Inspectable.archivedBytes : Models.archivedBytes d (archiveName O f.bytes) =
    .ok (d.archives[archiveName O f.bytes]?.map File.bytes) := by
  simp only [Models.archivedBytes, bind_eq_ok, refuseIf_eq_ok, boundedFile_eq_ok]
  cases hg : d.archives[archiveName O f.bytes]? with
  | none => simp
  | some g =>
    obtain ⟨hbytes, hmode⟩ := h.archive g hg
    refine ⟨(), by simp [hmode], trivial, fun v hv => ?_⟩
    cases hv
    rw [hbytes]
    exact h.short

theorem Inspectable.checkArchive :
    Models.checkArchive d (archiveName O f.bytes) f.bytes = .ok () := by
  simp only [Models.checkArchive, bind_eq_ok, refuseIf_eq_ok]
  refine ⟨_, h.archivedBytes, ?_⟩
  cases hg : d.archives[archiveName O f.bytes]? with
  | none => rfl
  | some g => simp [(h.archive g hg).1]

include hlocks

theorem Inspectable.checkedRecoveryLock : Models.checkedRecoveryLock locks d = .ok () := by
  simp only [Models.checkedRecoveryLock, bind_eq_ok, refuseIf_eq_ok, hlocks.holder]
  exact ⟨l, h.checkedLock, rfl⟩

theorem Inspectable.recoveryLock : Shows (Models.recoveryLock locks) d (.ok l) := by
  have hlock : Shows (lockFile false) d (.ok l) :=
    shows_bind shows_look (shows_bind shows_look (by rw [← h.checkedLock]; exact shows_lift _))
  refine shows_bind hlock (shows_bind_refuseIf (by simp [hlocks.flock]) ?_)
  exact shows_bind shows_look (shows_bind_lift (h.checkedRecoveryLock hlocks) (shows_pure _))

end Inspectable

/-! ## The record of a trial -/

/-- The record that `begin` publishes for `p`. -/
def trialRecord (O : Outside) (p : Profile) (who : Process) (l : File)
    (incident : { bytes : Bytes // bytes.length = 16 }) (c : Configuration) : Record :=
  { schemaVersion := 1, incidentId := hex incident.val, controllerPid := who.pid,
    controllerStartTicks := who.startTicks, bootId := who.bootId,
    leaseDevice := l.identity.device, leaseInode := l.identity.inode,
    candidate := p.id, candidateSha256 := p.sha256, catalogSha256 := O.catalogBinding,
    hashes := c.hashes O }

theorem notHex_eq_false {n : Nat} {value : String} {bytes : Bytes}
    (h : decode n value = .ok bytes) : notHex n value = false := by
  rw [notHex, h]
  rfl

/-- A published record is one that `decode` accepts. -/
theorem decode_trialRecord {who : Process} {l : File}
    {incident : { bytes : Bytes // bytes.length = 16 }} {c : Configuration} (hO : O.Sound known)
    (hp : O.profile p.id = .ok p) (hc : Consistent O O.profile p c) :
    Record.decode O (trialRecord O p who l incident c).bytes O.profile =
      .ok (trialRecord O p who l incident c) := by
  obtain ⟨⟨token, ⟨⟨s, -, hs⟩, he, hk, -⟩⟩, -⟩ := priorRestoreProfile_some.mp hc.prior
  have hhash : ∀ b : Bytes, notHex 32 (O.digest b) = false := fun b =>
    notHex_eq_false (hO.decode_digest b)
  obtain ⟨boot, hboot⟩ := who.bootId_hex
  have hincident : notHex 16 (hex incident.val) = false :=
    notHex_eq_false (decode_hex incident.property)
  have hpid : who.pid.toNat ≤ 2147483647 := who.pid_le
  simp only [Record.decode, Record.decodeAs_bytes, okOr, bind_eq_ok, refuseIf_eq_ok, pure_eq_ok]
  refine ⟨_, rfl, p, hp, (), ?_, rfl⟩
  simp [trialRecord, who.pid_ne, hpid, who.startTicks_ne, l.identity.inode_ne, hincident,
    notHex_eq_false hboot, who.bootId_ne, Configuration.hashes, activationDigest, hs, he, hk,
    hhash]

/-- A published record is short enough to be read. -/
theorem length_trialRecord_le {who : Process} {l : File}
    {incident : { bytes : Bytes // bytes.length = 16 }} {c : Configuration} (hO : O.Sound known)
    (hp : O.profile p.id = .ok p) :
    (trialRecord O p who l incident c).bytes.length ≤ maxRecord := by
  have hmem := (Outside.mem_of_publicProfile (Outside.profile_eq_ok.mp hp).1).1
  have hid := hO.ids p hmem
  have hweights := hO.weights p hmem
  have hbinding := hO.binding
  have hdigest : ∀ o : Option Bytes,
      sizeBound (Json.optional .string (activationDigest O o)) ≤ 386 := by
    intro o
    cases o with
    | none => exact Nat.le_add_right 4 382
    | some b =>
      have hhex : (O.digest b).utf8ByteSize = 64 := by
        rw [Outside.digest, utf8ByteSize_hex, hO.length]
      simp only [activationDigest, Option.map_some, Json.optional, sizeBound, quoteBound, hhex]
      exact Nat.le_refl 386
  have hhashes : sizeBound (c.hashes O).toJson ≤ 1163 := by
    have hs := hdigest c.selection
    have he := hdigest c.environment
    have hk := hdigest c.key
    simp only [Configuration.hashes, Hashes.toJson, sizeBound, sizeBounds]
    omega
  have hboot : who.bootId.utf8ByteSize = 32 := by
    obtain ⟨bytes, hbytes⟩ := who.bootId_hex
    simp only [decode, bind_eq_ok, refuseIf_eq_ok, Bool.or_eq_false_iff, bne_eq_false_iff_eq]
      at hbytes
    obtain ⟨_, ⟨hsize, -⟩, -⟩ := hbytes
    exact hsize
  have hincident : (hex incident.val).utf8ByteSize = 32 := by
    rw [utf8ByteSize_hex, incident.property]
  have hversion := sizeBound_u32Json 1
  have hpid := sizeBound_u32Json who.pid
  have hticks := sizeBound_u64Json who.startTicks
  have hdevice := sizeBound_u64Json l.identity.device
  have hinode := sizeBound_u64Json l.identity.inode
  have hkeys : quoteBound "schema_version" + quoteBound "incident_id" +
      quoteBound "controller_pid" + quoteBound "controller_start_ticks" + quoteBound "boot_id" +
      quoteBound "lease_device" + quoteBound "lease_inode" + quoteBound "candidate" +
      quoteBound "candidate_sha256" + quoteBound "catalog_sha256" + quoteBound "hashes" ≤ 900 := by
    decide
  have htext : ∀ {s : String} {n : Nat}, s.utf8ByteSize ≤ n → quoteBound s ≤ 2 + 6 * n :=
    fun h => Nat.add_le_add_left (Nat.mul_le_mul_left 6 h) 2
  have h1 := htext hid
  have h2 := htext (Nat.le_of_eq hweights)
  have h3 := htext (Nat.le_of_eq hbinding)
  have h4 := htext (Nat.le_of_eq hboot)
  have h5 := htext (Nat.le_of_eq hincident)
  have hmax : maxRecord = 8192 := rfl
  refine le_trans (length_toVec_le _) ?_
  simp only [Record.fields, trialRecord, sizeBound, fieldBounds]
  omega

/-! ## Inspection and retention get through -/

/-- A complete record of this lock. -/
structure Complete (O : Outside) (f l : File) (r : Record) : Prop where
  decodes : Record.decode O f.bytes O.profile = .ok r
  device : r.leaseDevice = l.identity.device
  inode : r.leaseInode = l.identity.inode

/-- What `inspect` reports of a complete record. -/
def abandonedObservation (O : Outside) (p : Profile) (f : File) (c : Configuration) : Observation :=
  { review := O.digest (utf8 "luma-model-abandoned-validation-review-v1\x00" ++ f.bytes ++
      toVec (c.hashes O).toJson ++ profileDigest (some p))
    current := some p, archive := archiveName O f.bytes, bytes := f.bytes, hashes := c.hashes O,
    identity := none }

/-- What `inspect_incomplete` reports of an incomplete one. -/
def incompleteObservation (O : Outside) (p : Profile) (f l : File) (c : Configuration) :
    Observation :=
  { review := O.digest (utf8 "luma-model-incomplete-validation-review-v1\x00" ++
      utf8 O.catalogBinding ++ f.bytes ++ toVec f.identity.toJson ++
      toVec (.array [u64Json l.identity.device, u64Json l.identity.inode]) ++
      toVec (c.hashes O).toJson ++ profileDigest (some p))
    current := some p, archive := archiveName O f.bytes, bytes := f.bytes, hashes := c.hashes O,
    identity := some f.identity }

/-- The directory `d'` differs from `d` in one archive, which holds `u`. -/
structure Holding (name : String) (u : Bytes) (d d' : Disk) : Prop where
  same : d' = { d with archives := d'.archives }
  others : ∀ other, name ≠ other → d'.archives[other]? = d.archives[other]?
  file : ∃ g, d'.archives[name]? = some g ∧ g.bytes = u ∧ g.mode &&& 0o077 = 0

section Holding

variable {name : String} {u : Bytes} {d' : Disk}

theorem holding_create (seen : Seen) : Holding name [] d
    { d with archives := d.archives.insert name (createdFile 0o600 seen) } where
  same := rfl
  others _ hother := Table.get_insert_ne hother
  file := by
    refine ⟨_, Table.get_insert_self, rfl, ?_⟩
    rw [createdFile, Nat.and_assoc, Nat.and_comm _ 0o077, ← Nat.and_assoc]
    exact Nat.zero_and _

theorem Holding.chmod (h : Holding name u d d') (seen : Seen) : Holding name u d
    { d' with archives := d'.archives.modify name fun f => f.chmod 0o600 seen } where
  same := by
    rw [h.same]
  others other hother := by
    rw [Table.get_modify, if_neg hother]
    exact h.others other hother
  file := by
    obtain ⟨g, hg, hbytes, -⟩ := h.file
    exact ⟨g.chmod 0o600 seen, by rw [Table.get_modify, if_pos rfl, hg, Option.map_some], hbytes,
      (by decide : 0o600 &&& 0o077 = 0)⟩

theorem Holding.append (h : Holding name u d d') (v : Bytes) (seen : Seen) :
    Holding name (u ++ v) d
      { d' with archives := d'.archives.modify name fun f => f.append v seen } where
  same := by
    rw [h.same]
  others other hother := by
    rw [Table.get_modify, if_neg hother]
    exact h.others other hother
  file := by
    obtain ⟨g, hg, rfl, hmode⟩ := h.file
    exact ⟨g.append v seen, by rw [Table.get_modify, if_pos rfl, hg, Option.map_some], rfl, hmode⟩

theorem createArchive_succeeds (name : String) (bytes : Bytes) :
    Succeeds 4 (createArchive name bytes) d fun _ d' => Holding name bytes d d' := by
  refine succeeds_bind (n := 1) (k := 3) (T := fun _ d' => Holding name [] d d')
    (succeeds_call fun seen => ⟨.unit, _, rfl, holding_create seen⟩) ?_
  intro _ d₁ h₁
  refine succeeds_bind (n := 1) (k := 2) (T := fun _ d' => Holding name [] d d')
    (succeeds_call fun seen => ⟨.unit, _, rfl, h₁.chmod seen⟩) ?_
  intro _ d₂ h₂
  refine succeeds_bind (n := 1) (k := 1) (T := fun n d' => Holding name (bytes.take n) d d')
    (succeeds_call fun seen => ⟨_, _, rfl, h₂.append (bytes.take (seen.part bytes)) seen⟩) ?_
  intro n d₃ h₃
  have hall : ∀ seen, Holding name bytes d
      { d₃ with archives := d₃.archives.modify name fun f => f.append (bytes.drop n) seen } := by
    intro seen
    have := h₃.append (bytes.drop n) seen
    rwa [List.take_append_drop] at this
  exact succeeds_call fun seen => ⟨.unit, _, rfl, hall seen⟩

end Holding

/-- The record is gone and its bytes are in the archive. -/
structure Retired (f : File) (name : String) (d : Disk) : Prop where
  pending : d.pending = none
  archive : ∃ g, d.archives[name]? = some g ∧ g.bytes = f.bytes

/-- The record is removed, and what was archived stays. -/
theorem removePending_succeeds {f : File} {d' : Disk} {name : String}
    (hname : name = archiveName O f.bytes)
    (ha : Holding (archiveName O f.bytes) f.bytes d d') :
    Succeeds 1 (do removePending; pure name : Calls Disk Seen String) d' (Retired f) := by
  refine succeeds_bind (n := 1) (k := 0)
    (T := fun _ d'' => d'' = { d' with pending := none })
    (succeeds_call fun _ => ⟨.unit, _, rfl, rfl⟩) ?_
  rintro _ _ rfl
  obtain ⟨g, hg, hbytes, -⟩ := ha.file
  exact (shows_pure _).succeeds ⟨rfl, g, by rw [hname]; exact hg, hbytes⟩

section Inspectable

variable {f l : File} (h : Inspectable O p f l d) (hlocks : locks.Free)

theorem Inspectable.archived {d' : Disk} (h : Inspectable O p f l d)
    (ha : Holding (archiveName O f.bytes) f.bytes d d') : Inspectable O p f l d' := by
  obtain ⟨hsame, -, g, hg, hbytes, hmode⟩ := ha
  rw [hsame]
  refine { h with archive := fun g' hg' => ?_ }
  cases hg.symm.trans hg'
  exact ⟨hbytes, hmode⟩

theorem Inspectable.archivedBytes_of_holding {d' : Disk} (h : Inspectable O p f l d')
    (ha : Holding (archiveName O f.bytes) f.bytes d d') :
    Models.archivedBytes d' (archiveName O f.bytes) = .ok (some f.bytes) := by
  obtain ⟨-, -, g, hg, hbytes, hmode⟩ := ha
  simp only [Models.archivedBytes, bind_eq_ok, refuseIf_eq_ok, boundedFile_eq_ok, hg]
  refine ⟨(), by simp [hmode], by rw [Option.map_some, hbytes], fun v hv => ?_⟩
  cases hv
  rw [hbytes]
  exact h.short

include h

theorem Inspectable.retainBytes :
    Succeeds 4 (Models.retainBytes (archiveName O f.bytes) f.bytes) d fun _ d' =>
      Holding (archiveName O f.bytes) f.bytes d d' := by
  refine succeeds_bind_shows shows_look (succeeds_bind_shows
    (by rw [← h.archivedBytes]; exact shows_lift _) ?_)
  -- the last look at the archive
  have hlast : ∀ d', Holding (archiveName O f.bytes) f.bytes d d' → Succeeds 0 (do
      let d ← look
      let retained ← Models.archivedBytes d (archiveName O f.bytes)
      liftM (refuseIf (retained != some f.bytes)
        "model validation retention changed; preserve state") : Calls Disk Seen Unit) d'
      fun _ d' => Holding (archiveName O f.bytes) f.bytes d d' := by
    intro d' ha
    have hshows : Shows (liftM (Models.archivedBytes d' (archiveName O f.bytes)) :
        Calls Disk Seen (Option Bytes)) d' (.ok (some f.bytes)) := by
      rw [← (h.archived ha).archivedBytes_of_holding ha]
      exact shows_lift _
    refine succeeds_bind_shows shows_look (succeeds_bind_shows hshows ?_)
    refine Shows.succeeds (a := ()) ?_ ha
    have hok : refuseIf (some f.bytes != some f.bytes)
        "model validation retention changed; preserve state" = .ok () :=
      refuseIf_eq_ok.mpr (by simp)
    rw [← hok]
    exact shows_lift _
  cases hg : d.archives[archiveName O f.bytes]? with
  | some g =>
    obtain ⟨hbytes, hmode⟩ := h.archive g hg
    have hok : refuseIf (g.bytes != f.bytes) "model validation retention conflict; preserve state" =
        .ok () := refuseIf_eq_ok.mpr (by simp [hbytes])
    have hheld : Holding (archiveName O f.bytes) f.bytes d d :=
      ⟨rfl, fun _ _ => rfl, g, hg, hbytes, hmode⟩
    exact succeeds_bind_shows (by rw [← hok]; exact shows_lift _)
      ((hlast d hheld).le (by decide))
  | none =>
    exact succeeds_bind (n := 4) (k := 0) (createArchive_succeeds _ _) fun _ d' ha => hlast d' ha

theorem Inspectable.independentTypedOwner {who : Process} {r : Record} (hr : Complete O f l r)
    (hwho : r.controllerPid ≠ who.pid) :
    Shows (Models.independentTypedOwner O who O.profile) d (.ok ()) := by
  refine shows_bind shows_look (shows_bind_lift h.absent (shows_bind_lift h.recordBytes ?_))
  refine shows_bind_lift (a := f.bytes) rfl (shows_bind_lift hr.decodes ?_)
  have hok : refuseIf (r.controllerPid == who.pid)
      "validation belongs to this process; preserve state" = .ok () :=
    refuseIf_eq_ok.mpr (by simp [hwho])
  rw [← hok]
  exact shows_lift _

theorem Inspectable.incompleteBytes (heof : fromSlice f.bytes = .error .eof) :
    Models.incompleteBytes d = .ok (f.bytes, f.identity) := by
  simp only [Models.incompleteBytes, h.pending, h.recordBytes, okOr, bind_eq_ok, refuseIf_eq_ok,
    pure_eq_ok]
  exact ⟨f, rfl, _, rfl, f.bytes, rfl, (), by rw [heof], rfl⟩

include hlocks

theorem Inspectable.inspectLocked {r : Record} (hr : Complete O f l r) :
    Shows (Models.inspectLocked O locks l O.profile) d
      (.ok (abandonedObservation O p f d.config)) := by
  refine shows_bind shows_look (shows_bind_lift h.absent (shows_bind_lift h.recordBytes ?_))
  refine shows_bind_lift (a := f.bytes) rfl (shows_bind_lift hr.decodes ?_)
  refine shows_bind_refuseIf (by simp [hr.device, hr.inode]) ?_
  refine shows_bind_lift (h.checkedRecoveryLock hlocks) (shows_bind h.consistent.shows ?_)
  refine shows_bind shows_look (shows_bind_lift h.absent ?_)
  refine shows_bind_lift (h.checkedRecoveryLock hlocks) (shows_bind_lift h.recordBytes ?_)
  refine shows_bind_lift h.snapshot (shows_bind_refuseIf (by simp) ?_)
  exact shows_bind_lift h.checkArchive (shows_pure _)

theorem Inspectable.inspectIncompleteLocked (heof : fromSlice f.bytes = .error .eof) :
    Shows (Models.inspectIncompleteLocked O locks l O.profile) d
      (.ok (incompleteObservation O p f l d.config)) := by
  have hbytes := h.incompleteBytes heof
  refine shows_bind shows_look (shows_bind_lift h.absent ?_)
  refine shows_bind_lift (h.checkedRecoveryLock hlocks) (shows_bind_lift hbytes ?_)
  refine shows_bind h.consistent.shows (shows_bind shows_look (shows_bind_lift h.absent ?_))
  refine shows_bind_lift (h.checkedRecoveryLock hlocks) (shows_bind_lift hbytes ?_)
  refine shows_bind_lift h.snapshot (shows_bind_refuseIf (by simp) ?_)
  exact shows_bind_lift h.checkArchive (shows_pure _)

/-- **A complete record is retired**: inspected, archived and removed. -/
theorem Inspectable.retainAbandoned {who : Process} {r : Record} (hO : O.Sound known)
    (hr : Complete O f l r) (hwho : r.controllerPid ≠ who.pid) :
    Shows (inspect O who locks O.profile) d (.ok (abandonedObservation O p f d.config)) ∧
      Succeeds 5 (Models.retainAbandoned O who locks
        (abandonedObservation O p f d.config).review O.profile) d (Retired f) := by
  have howner := h.independentTypedOwner hr hwho
  have hlock := h.recoveryLock hlocks
  have hobserved := h.inspectLocked hlocks hr
  refine ⟨shows_bind howner (shows_bind hlock hobserved), ?_⟩
  refine succeeds_bind_lift (hO.decode_digest _) (succeeds_bind_shows howner ?_)
  refine succeeds_bind_shows hlock (succeeds_bind_shows hobserved ?_)
  refine succeeds_bind_refuseIf (by simp) ?_
  refine succeeds_bind (n := 4) (k := 1) h.retainBytes fun _ d' ha => ?_
  -- the directory is inspected again before the record goes
  have h' := h.archived ha
  have hconfig : d'.config = d.config := by rw [ha.same]
  have hagain := h'.inspectLocked hlocks hr
  rw [hconfig] at hagain
  refine succeeds_bind_shows hagain (succeeds_bind_shows shows_look ?_)
  refine succeeds_bind_lift (h'.archivedBytes_of_holding ha) (succeeds_bind_refuseIf ?_ ?_)
  · simp [abandonedObservation]
  refine succeeds_bind_lift (h'.checkedRecoveryLock hlocks) (succeeds_bind_lift h'.absent ?_)
  refine succeeds_bind_lift h'.recordBytes (succeeds_bind_lift h'.snapshot ?_)
  refine succeeds_bind_refuseIf ?_ (removePending_succeeds rfl ha)
  simp [abandonedObservation, hconfig]

/-- **An incomplete record is retired.** -/
theorem Inspectable.retainIncomplete (hO : O.Sound known) (heof : fromSlice f.bytes = .error .eof) :
    Shows (inspectIncomplete O locks O.profile) d (.ok (incompleteObservation O p f l d.config)) ∧
      Succeeds 5 (Models.retainIncomplete O locks
        (incompleteObservation O p f l d.config).review O.profile) d (Retired f) := by
  have hlock := h.recoveryLock hlocks
  have hobserved := h.inspectIncompleteLocked hlocks heof
  refine ⟨shows_bind shows_look (shows_bind_lift h.absent (shows_bind hlock hobserved)), ?_⟩
  refine succeeds_bind_lift (hO.decode_digest _) (succeeds_bind_shows shows_look ?_)
  refine succeeds_bind_lift h.absent (succeeds_bind_shows hlock ?_)
  refine succeeds_bind_shows hobserved (succeeds_bind_refuseIf (by simp) ?_)
  refine succeeds_bind (n := 4) (k := 1) h.retainBytes fun _ d' ha => ?_
  have h' := h.archived ha
  have hconfig : d'.config = d.config := by rw [ha.same]
  have hagain := h'.inspectIncompleteLocked hlocks heof
  rw [hconfig] at hagain
  refine succeeds_bind_shows hagain (succeeds_bind_shows shows_look ?_)
  refine succeeds_bind_lift (h'.archivedBytes_of_holding ha) (succeeds_bind_refuseIf ?_ ?_)
  · simp [incompleteObservation]
  refine succeeds_bind_lift (h'.checkedRecoveryLock hlocks) (succeeds_bind_lift h'.absent ?_)
  refine succeeds_bind_lift (h'.incompleteBytes heof) (succeeds_bind_lift (a := f.identity) rfl ?_)
  refine succeeds_bind_lift h'.snapshot (succeeds_bind_refuseIf ?_ (removePending_succeeds rfl ha))
  simp [incompleteObservation, hconfig]

end Inspectable

end LumaOS.Models
