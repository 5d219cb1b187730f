import LumaOS.Resources.Ledger
import LumaOS.Json.Decode

/-!
# Reading the ledger back

The `Deserialize` half of the records of `resources.rs:56-205`. The ledger counts in `Nat`; a file
holds machine words, and `Fits` says that a ledger does. A ledger that fits is read back from its
own bytes (`Ledger.decodeAs_toVec`), and whatever is read fits (`Ledger.fits_of_ofJson`).
-/

namespace LumaOS.Resources

open LumaOS.Base LumaOS.Text LumaOS.Json

/-! ## Machine words -/

/-- The `u64` fields of a domain. -/
def Domain.words (d : Domain) : List Nat :=
  [d.capacity, d.reserve, d.pressureEnter, d.pressureExit, d.observed, d.retained, d.epoch]

/-- A domain of `u64`s. -/
def Domain.Fits (d : Domain) : Prop := ∀ n ∈ d.words, n < 2 ^ 64

structure Reservation.Fits (r : Reservation) : Prop where
  loading : r.loading < 2 ^ 64
  serving : r.serving < 2 ^ 64

structure Owner.Fits (o : Owner) : Prop where
  uid : o.uid < 2 ^ 32
  pid : o.pid < 2 ^ 32
  startTicks : o.startTicks < 2 ^ 64
  cgroupDevice : o.cgroupDevice < 2 ^ 64
  cgroupInode : o.cgroupInode < 2 ^ 64

/-- A lease of machine words. -/
structure Lease.Fits (lease : Lease) : Prop where
  generation : lease.token.generation < 2 ^ 64
  owner : lease.owner.Fits
  reservations : ∀ r ∈ lease.reservations, r.Fits
  deadlineMs : lease.deadlineMs < 2 ^ 64
  epochs : ∀ t, lease.outputDomainEpochs = some t → ∀ (id : String) (e : Nat),
    t[id]? = some e → e < 2 ^ 64

/-- **A ledger of machine words**: every value the source's type has. -/
structure Ledger.Fits (l : Ledger) : Prop where
  schemaVersion : l.schemaVersion < 2 ^ 32
  generation : l.generation < 2 ^ 64
  domains : ∀ (id : String) (d : Domain), l.domains[id]? = some d → d.Fits
  archives : ∀ a ∈ l.archives, a.throughGeneration < 2 ^ 64
  leases : ∀ x ∈ l.leases, x.Fits

/-! ## Reading -/

/-- A `u32` that the ledger keeps as a `Nat`. -/
def natU32 (v : Value) : Option Nat := v.asU32.map UInt32.toNat

def Domain.ofJson (v : Value) : Option Domain := do
  let capacity ← (v.get "capacity").asDecimal
  let reserve ← (v.get "reserve").asDecimal
  let pressureEnter ← (v.get "pressure_enter").asDecimal
  let pressureExit ← (v.get "pressure_exit").asDecimal
  let observed ← (v.get "observed").asDecimal
  let retained ← (v.get "retained").asDecimal
  let pressure ← (v.get "pressure").asBool
  let quarantined ← (v.get "quarantined").asBool
  let epoch ← (v.get "epoch").asDecimal
  pure { capacity, reserve, pressureEnter, pressureExit, observed, retained, pressure,
         quarantined, epoch }

def Reservation.ofJson (v : Value) : Option Reservation := do
  let domain ← (v.get "domain").asStr
  let loading ← (v.get "loading").asDecimal
  let serving ← (v.get "serving").asDecimal
  pure { domain, loading, serving }

def Owner.ofJson (v : Value) : Option Owner := do
  let uid ← natU32 (v.get "uid")
  let pid ← natU32 (v.get "pid")
  let startTicks ← (v.get "start_ticks").asDecimal
  let boot ← (v.get "boot").asStr
  let cgroupDevice ← (v.get "cgroup_device").asDecimal
  let cgroupInode ← (v.get "cgroup_inode").asDecimal
  pure { uid, pid, startTicks, boot, cgroupDevice, cgroupInode }

def Token.ofJson (v : Value) : Option Token := do
  let leaseId ← (v.get "lease_id").asStr
  let generation ← (v.get "generation").asDecimal
  let managerEpoch ← (v.get "manager_epoch").asStr
  pure { leaseId, generation, managerEpoch }

def State.ofJson : Value → Option State
  | .string "active" => some .active
  | .string "draining" => some .draining
  | .string "released" => some .released
  | _ => none

def Lease.ofJson (v : Value) : Option Lease := do
  let token ← Token.ofJson (v.get "token")
  let owner ← Owner.ofJson (v.get "owner")
  let request ← (v.get "request").asStr
  let binding ← (v.get "binding").asStr
  let reservations ← (v.get "reservations").asItems Reservation.ofJson
  let deadlineMs ← (v.get "deadline_ms").asDecimal
  let state ← State.ofJson (v.get "state")
  let reason ← (v.get "reason").asStr
  let outputSha256 ← (v.get "output_sha256").asOptional Value.asStr
  let outputDomainEpochs ←
    (v.get "output_domain_epochs").asOptional fun w => w.asTable Value.asDecimal
  let outputFenced ← v.getOr "output_fenced" Value.asBool false
  pure { token, owner, request, binding, reservations, deadlineMs, state, reason, outputSha256,
         outputDomainEpochs, outputFenced }

def Archive.ofJson (v : Value) : Option Archive := do
  let throughGeneration ← (v.get "through_generation").asDecimal
  let sha256 ← (v.get "sha256").asStr
  pure { throughGeneration, sha256 }

def Ledger.ofJson (v : Value) : Option Ledger := do
  let schemaVersion ← natU32 (v.get "schema_version")
  let managerEpoch ← (v.get "manager_epoch").asStr
  let generation ← (v.get "generation").asDecimal
  let domains ← (v.get "domains").asTable Domain.ofJson
  let archives ← (v.get "archives").asItems Archive.ofJson
  let leases ← (v.get "leases").asItems Lease.ofJson
  pure { schemaVersion, managerEpoch, generation, domains, archives, leases }

/-! ## What is written is read back -/

theorem natU32_number {n : Nat} (h : n < 2 ^ 32) : natU32 (.number n) = some n := by
  have hlt : (n : Int) < 2 ^ 32 := by exact_mod_cast h
  simp only [natU32, Value.asU32]
  rw [if_pos ⟨Int.natCast_nonneg _, hlt⟩, Int.toNat_natCast, Option.map_some,
    UInt32.toNat_ofNat_of_lt' h]

theorem Domain.ofJson_toJson {d : Domain} (h : d.Fits) : Domain.ofJson d.toJson = some d := by
  simp only [Domain.Fits, Domain.words, List.forall_mem_cons] at h
  obtain ⟨h1, h2, h3, h4, h5, h6, h7, -⟩ := h
  simp [Domain.ofJson, Domain.toJson, Value.get, Value.asBool, asDecimal_decimal h1,
    asDecimal_decimal h2, asDecimal_decimal h3, asDecimal_decimal h4, asDecimal_decimal h5,
    asDecimal_decimal h6, asDecimal_decimal h7]

theorem Reservation.ofJson_toJson {r : Reservation} (h : r.Fits) :
    Reservation.ofJson r.toJson = some r := by
  simp [Reservation.ofJson, Reservation.toJson, Value.get, asDecimal_decimal h.loading,
    asDecimal_decimal h.serving]

theorem Owner.ofJson_toJson {o : Owner} (h : o.Fits) : Owner.ofJson o.toJson = some o := by
  simp [Owner.ofJson, Owner.toJson, Value.get, natU32_number h.uid, natU32_number h.pid,
    asDecimal_decimal h.startTicks, asDecimal_decimal h.cgroupDevice,
    asDecimal_decimal h.cgroupInode]

theorem Token.ofJson_toJson {t : Token} (h : t.generation < 2 ^ 64) :
    Token.ofJson t.toJson = some t := by
  simp [Token.ofJson, Token.toJson, Value.get, asDecimal_decimal h]

@[simp] theorem State.ofJson_toJson (s : State) : State.ofJson s.toJson = some s := by
  cases s <;> rfl

theorem Archive.ofJson_toJson {a : Archive} (h : a.throughGeneration < 2 ^ 64) :
    Archive.ofJson a.toJson = some a := by
  simp [Archive.ofJson, Archive.toJson, Value.get, asDecimal_decimal h]

theorem asOptional_epochs {o : Option (Table Nat)}
    (h : ∀ t, o = some t → ∀ (id : String) (e : Nat), t[id]? = some e → e < 2 ^ 64) :
    ((o.map fun t => Value.object (t.toList.map fun e => (e.1, decimal e.2))).getD .null).asOptional
      (fun w => w.asTable Value.asDecimal) = some o := by
  cases o with
  | none => rfl
  | some t =>
    have hread : (Value.object (t.toList.map fun e => (e.1, decimal e.2))).asTable
        Value.asDecimal = some t :=
      asTable_toList fun id e he => asDecimal_decimal (h t rfl id e he)
    simp only [Option.map_some, Option.getD_some, Value.asOptional]
    rw [hread]
    rfl

theorem Lease.ofJson_toJson {x : Lease} (h : x.Fits) : Lease.ofJson x.toJson = some x := by
  have hrs : (Value.array (x.reservations.map Reservation.toJson)).asItems Reservation.ofJson =
      some x.reservations :=
    asItems_map fun r hr => Reservation.ofJson_toJson (h.reservations r hr)
  have hepochs := asOptional_epochs h.epochs
  obtain ⟨token, owner, request, binding, reservations, deadlineMs, state, reason, output, epochs,
    fenced⟩ := x
  have htoken := Token.ofJson_toJson h.generation
  have howner := Owner.ofJson_toJson h.owner
  have hdeadline := asDecimal_decimal h.deadlineMs
  -- the three fields that may be left out
  cases output <;> cases epochs <;> cases fenced <;>
    simp_all [Lease.ofJson, Lease.toJson, Value.get, Value.getOr, Value.asBool, Value.asOptional]

theorem Ledger.ofJson_toJson {l : Ledger} (h : l.Fits) : Ledger.ofJson l.toJson = some l := by
  have hdomains : (Value.object (l.domains.toList.map fun e => (e.1, e.2.toJson))).asTable
      Domain.ofJson = some l.domains :=
    asTable_toList fun id d hd => Domain.ofJson_toJson (h.domains id d hd)
  have harchives : (Value.array (l.archives.map Archive.toJson)).asItems Archive.ofJson =
      some l.archives :=
    asItems_map fun a ha => Archive.ofJson_toJson (h.archives a ha)
  have hleases : (Value.array (l.leases.map Lease.toJson)).asItems Lease.ofJson = some l.leases :=
    asItems_map fun x hx => Lease.ofJson_toJson (h.leases x hx)
  simp [Ledger.ofJson, Ledger.toJson, Value.get, natU32_number h.schemaVersion,
    asDecimal_decimal h.generation, hdomains, harchives, hleases]

/-! ## A ledger is flat -/

theorem Lease.depth_toJson (x : Lease) : depth x.toJson ≤ 3 := by
  have hreservation : ∀ r : Reservation, depth r.toJson ≤ 1 := fun r => Nat.le_refl 1
  have hreservations := depths_map hreservation x.reservations
  have hdecimal : ∀ n, depth (decimal n) ≤ 0 := fun _ => Nat.le_refl 0
  have hepochs : ∀ m : Table Nat, depth (.object (m.toList.map fun e => (e.1, decimal e.2))) ≤ 1 :=
    fun m => Nat.add_le_add_left (fieldDepths_map hdecimal m.toList) 1
  obtain ⟨token, owner, request, binding, reservations, deadlineMs, state, reason, output, epochs,
    fenced⟩ := x
  have hstate : depth state.toJson = 0 := by cases state <;> rfl
  have htoken : depth token.toJson = 1 := rfl
  have howner : depth owner.toJson = 1 := rfl
  cases output <;> cases epochs <;> cases fenced <;>
    simp_all [Lease.toJson, depth, fieldDepths, decimal] <;> grind

theorem Ledger.depth_toJson (l : Ledger) : depth l.toJson ≤ maxDepth := by
  have hdomain : ∀ d : Domain, depth d.toJson ≤ 1 := fun d => Nat.le_refl 1
  have harchive : ∀ a : Archive, depth a.toJson ≤ 1 := fun a => Nat.le_refl 1
  have hdomains := fieldDepths_map hdomain l.domains.toList
  have harchives := depths_map harchive l.archives
  have hleases := depths_map Lease.depth_toJson l.leases
  have hmax : maxDepth = 127 := rfl
  have hnumber : ∀ n, depth (.number n) = 0 := fun _ => rfl
  simp only [Ledger.toJson, depth, fieldDepths, decimal]
  omega

/-- **A ledger's own bytes decode to it.** -/
theorem Ledger.decodeAs_toVec {l : Ledger} (h : l.Fits) :
    decodeAs Ledger.ofJson (toVec l.toJson) = some l := by
  rw [Json.decodeAs_toVec l.depth_toJson, Ledger.ofJson_toJson h]

/-- A ledger that fits is in its bytes. -/
theorem Ledger.toVec_inj {l l' : Ledger} (h : l.Fits) (h' : l'.Fits)
    (he : toVec l.toJson = toVec l'.toJson) : l = l' := by
  have hread := Ledger.decodeAs_toVec h
  rw [he, Ledger.decodeAs_toVec h'] at hread
  exact (Option.some.inj hread).symm

/-! ## What is read fits -/

theorem lt_of_natU32 {v : Value} {n : Nat} (h : natU32 v = some n) : n < 2 ^ 32 := by
  simp only [natU32, Option.map_eq_some_iff] at h
  obtain ⟨w, -, rfl⟩ := h
  exact w.toNat_lt

theorem Domain.fits_of_ofJson {v : Value} {d : Domain} (h : Domain.ofJson v = some d) :
    d.Fits := by
  simp only [Domain.ofJson, Option.bind_eq_bind, Option.bind_eq_some_iff, Option.pure_def,
    Option.some.injEq] at h
  obtain ⟨_, h1, _, h2, _, h3, _, h4, _, h5, _, h6, _, -, _, -, _, h7, rfl⟩ := h
  simp only [Domain.Fits, Domain.words, List.forall_mem_cons]
  exact ⟨lt_of_asDecimal h1, lt_of_asDecimal h2, lt_of_asDecimal h3, lt_of_asDecimal h4,
    lt_of_asDecimal h5, lt_of_asDecimal h6, lt_of_asDecimal h7,
    fun _ h => absurd h List.not_mem_nil⟩

theorem Reservation.fits_of_ofJson {v : Value} {r : Reservation}
    (h : Reservation.ofJson v = some r) : r.Fits := by
  simp only [Reservation.ofJson, Option.bind_eq_bind, Option.bind_eq_some_iff, Option.pure_def,
    Option.some.injEq] at h
  obtain ⟨_, -, _, h1, _, h2, rfl⟩ := h
  exact ⟨lt_of_asDecimal h1, lt_of_asDecimal h2⟩

theorem Owner.fits_of_ofJson {v : Value} {o : Owner} (h : Owner.ofJson v = some o) : o.Fits := by
  simp only [Owner.ofJson, Option.bind_eq_bind, Option.bind_eq_some_iff, Option.pure_def,
    Option.some.injEq] at h
  obtain ⟨_, h1, _, h2, _, h3, _, -, _, h4, _, h5, rfl⟩ := h
  exact ⟨lt_of_natU32 h1, lt_of_natU32 h2, lt_of_asDecimal h3, lt_of_asDecimal h4,
    lt_of_asDecimal h5⟩

theorem Token.fits_of_ofJson {v : Value} {t : Token} (h : Token.ofJson v = some t) :
    t.generation < 2 ^ 64 := by
  simp only [Token.ofJson, Option.bind_eq_bind, Option.bind_eq_some_iff, Option.pure_def,
    Option.some.injEq] at h
  obtain ⟨_, -, _, h1, _, -, rfl⟩ := h
  exact lt_of_asDecimal h1

theorem Archive.fits_of_ofJson {v : Value} {a : Archive} (h : Archive.ofJson v = some a) :
    a.throughGeneration < 2 ^ 64 := by
  simp only [Archive.ofJson, Option.bind_eq_bind, Option.bind_eq_some_iff, Option.pure_def,
    Option.some.injEq] at h
  obtain ⟨_, h1, _, -, rfl⟩ := h
  exact lt_of_asDecimal h1

theorem of_asOptional {α : Type} {read : Value → Option α} {v : Value} {a : α}
    (h : v.asOptional read = some (some a)) : read v = some a := by
  cases v <;> simp_all [Value.asOptional]

theorem Lease.fits_of_ofJson {v : Value} {x : Lease} (h : Lease.ofJson v = some x) : x.Fits := by
  simp only [Lease.ofJson, Option.bind_eq_bind, Option.bind_eq_some_iff, Option.pure_def,
    Option.some.injEq] at h
  obtain ⟨_, h1, _, h2, _, -, _, -, _, h3, _, h4, _, -, _, -, _, -, epochs, h5, _, -, rfl⟩ := h
  refine ⟨Token.fits_of_ofJson h1, Owner.fits_of_ofJson h2, fun r hr => ?_, lt_of_asDecimal h4,
    fun t ht id e he => ?_⟩
  · obtain ⟨w, hw⟩ := mem_of_asItems h3 hr
    exact Reservation.fits_of_ofJson hw
  · obtain rfl : epochs = some t := ht
    obtain ⟨w, hw⟩ := get_of_asTable (of_asOptional h5) he
    exact lt_of_asDecimal hw

/-- **A ledger that was read is one of machine words.** -/
theorem Ledger.fits_of_ofJson {v : Value} {l : Ledger} (h : Ledger.ofJson v = some l) :
    l.Fits := by
  simp only [Ledger.ofJson, Option.bind_eq_bind, Option.bind_eq_some_iff, Option.pure_def,
    Option.some.injEq] at h
  obtain ⟨_, h1, _, -, _, h2, _, h3, _, h4, _, h5, rfl⟩ := h
  refine ⟨lt_of_natU32 h1, lt_of_asDecimal h2, fun id d hd => ?_, fun a ha => ?_, fun x hx => ?_⟩
  · obtain ⟨w, hw⟩ := get_of_asTable h3 hd
    exact Domain.fits_of_ofJson hw
  · obtain ⟨w, hw⟩ := mem_of_asItems h4 ha
    exact Archive.fits_of_ofJson hw
  · obtain ⟨w, hw⟩ := mem_of_asItems h5 hx
    exact Lease.fits_of_ofJson hw

end LumaOS.Resources
