import LumaOS.Updater.Machine

/-!
# The updater's two operations

Model of `platform.rs:1453-1569`, `:2626-2751` and `:2947-3081`: `update` with the staging of the
inactive slot and its entry, and `boot_health`. The lock of `update_operation` lets one of them run
at a time.

What they ask of the rest of the system (the signed bundle, the disk and its confirmation, the
release authority and its clock at every guard, the health checks) may refuse at any point and has
no other effect here: it is `outside`, or the failure of the write it guards. What the authority
said is an argument.
-/

namespace LumaOS.Updater

open LumaOS.Base LumaOS.Text LumaOS.Governance

/-- Code on a machine that can be cut off between any two of its writes. -/
abbrev Operation (γ α : Type) := Calls (Machine γ) Unit α

section Operations

variable {γ : Type}

/-- A check, a question or a sync outside the machine's records. -/
def outside : Operation γ Unit := call fun _ => pure ()

/-- One write. -/
def write (f : Machine γ → Machine γ) : Operation γ Unit := call fun _ => modify f

/-- Look at the machine. -/
def look {α : Type} (f : Machine γ → Result α) : Operation γ α := call fun _ => do
  let w ← get
  f w

/-- `running_slot`, with the entry it was booted through. -/
def runningEntry (w : Machine γ) : Result Entry :=
  okOr w.running "running slot is not an installed A/B system"

variable (R : Releases γ)

/-- `check_running_manifest`. -/
def checkRunningManifest (w : Machine γ) (m : Manifest) : Result Unit := do
  let entry ← runningEntry w
  m.validate
  refuseIf (R.identity (w.slots entry.slot) != identity m)
    "running immutable image identity differs from the signed release"

/-! ## Staging -/

/-- Write a block of a partition. -/
def setBlock (slot : Slot) (part : Part) (k : Nat) (block : γ) (w : Machine γ) : Machine γ :=
  { w with
    slots := Function.update w.slots slot
      (Function.update (w.slots slot) part ((w.slots slot part).set k block)) }

/-- `copy_bounded_guarded`, from block `k` on. -/
def copyBounded (slot : Slot) (part : Part) : Nat → List γ → Operation γ Unit
  | _, [] => pure ()
  | k, block :: rest => do
    write (setBlock slot part k block)
    copyBounded slot part (k + 1) rest

/-- `write_artifact_guarded`. -/
def writeArtifact (slot : Slot) (part : Part) (blocks : List γ) : Operation γ Unit := do
  look fun w => refuseIf (blocks.length > (w.slots slot part).length)
    "artifact exceeds partition capacity"
  copyBounded slot part 0 blocks
  outside

/-- `install_slots_guarded`, for one slot. -/
def installSlot (slot : Slot) (image : Content γ) : Operation γ Unit := do
  writeArtifact slot .root (image .root)
  writeArtifact slot .hash (image .hash)
  outside

/-- `publish_efi_guarded` of a counted entry, for one slot; the loader itself is in place. -/
def publishEfi (slot : Slot) (m : Manifest) : Operation γ Unit := do
  let entry : Entry := ⟨slot, m.sequence, some (3, 0), m⟩
  write fun w => { w with entries := putEntry w.entries entry }
  -- a reused slot no longer contains the old release's root
  let obsolete ← look fun w => pure <| w.entries.filter fun e =>
    e.slot == slot && e.name != entry.name
  obsolete.forM fun e => write fun w => { w with entries := removeEntry w.entries e }
  write fun w => { w with loader := loaderConfig slot m.sequence true }
  outside

/-! ## Update -/

/-- What `release_authority_optional` says before an update: nothing is governed, or this state. -/
abbrev Governed := Option (Option ReleaseState)

/-- The checks of `update` on the release authority; those of the admission itself are outside. -/
def checkGoverned (governed : Governed) (current : Manifest) : Result Unit :=
  match governed with
  | some state => do
    let authority ← okOr state "Admin must publish release trust and admit this exact update"
    refuseIf (authority.acknowledged != some current)
      "installed manifest differs from TPM-anchored acknowledged release"
  | none =>
    refuseIf (current.environment == "production")
      "production update requires anchored Admin release authority"

/-- The checks of `update` before it asks for the confirmation; they give the slot to write. -/
def checkUpdate (m : Manifest) (governed : Governed) (w : Machine γ) : Result Slot := do
  let current := w.installed
  current.validate
  checkRunningManifest R w current
  refuseIf (m.environment != current.environment || m.edition != current.edition ||
      m.rootBytes != current.rootBytes || m.hashBytes != current.hashBytes)
    "update cannot change environment, edition or physical root/hash geometry"
  checkGoverned governed current
  refuseIf (m.sequence ≤ current.sequence) "update sequence must increase"
  refuseIf (w.pending.any fun previous => previous != m)
    "a different update requires explicit recovery; pending intent cannot be replaced"
  let entry ← runningEntry w
  pure entry.slot.other

/-- `update`, of the verified bundle with this manifest. -/
def update (m : Manifest) (governed : Governed) : Operation γ Unit := do
  outside
  let slot ← look (checkUpdate R m governed)
  outside
  write fun w => { w with pending := some m }
  installSlot slot (R.image m)
  publishEfi slot m

/-! ## Boot health -/

/-- The releases the anchored state knows, each once. -/
def knownReleases (state : ReleaseState) : List Manifest :=
  let found := [state.acknowledged, state.retained, state.pending.map (·.prior),
    state.pending.map (·.candidate.manifest)].filterMap id
  found.foldl (fun known m => if known.contains m then known else known ++ [m]) []

/-- The release that is running, and the update that failed if another one was pending. -/
def selectRelease (authority : Option ReleaseState) (w : Machine γ) :
    Result (Manifest × Option Manifest) :=
  match authority with
  | some state => do
    let running := (knownReleases state).filter fun m => (checkRunningManifest R w m).isOk
    let selected ← okOr running.head?
      "healthy running root is not any exact TPM-anchored release identity"
    refuseIf (running.length > 1) "running release identity is ambiguous"
    pure (selected, (state.pending.map (·.candidate.manifest)).filter fun m => selected != m)
  | none =>
    match w.pending with
    | some candidate =>
      if (checkRunningManifest R w candidate).isOk then pure (candidate, none) else do
        checkRunningManifest R w w.installed
        pure (w.installed, some candidate)
    | none => do
      checkRunningManifest R w w.installed
      pure (w.installed, none)

/-- The checks of `boot_health` on the release it is about to acknowledge. -/
def checkAcknowledged (authority : Option ReleaseState) (m : Manifest) : Result Unit :=
  match authority with
  | some state =>
    match state.pending with
    | some admission =>
      refuseIf (m != admission.candidate.manifest && m != admission.prior &&
          state.retained != some m)
        "healthy image is not exact admitted candidate or retained prior"
    | none =>
      refuseIf (state.acknowledged != some m && state.retained != some m)
        "healthy image differs from TPM-anchored acknowledged release"
  | none =>
    refuseIf (m.environment == "production") "production health requires anchored release authority"

/-- `systemd-bless-boot good`: the counted entry of this boot gets its counter-free name, if it has
not got it already. -/
def bless (entry : Entry) (w : Machine γ) : Machine γ :=
  if w.entries.contains entry then
    { w with entries := putEntry (removeEntry w.entries entry) entry.blessed }
  else w

/-- The image is one that production does not acknowledge before its activation. -/
def inert (authority : Option ReleaseState) (running : Identity) : Bool :=
  running.environment == "production" && authority.all fun state => state.acknowledged.isNone

/-- The writes of `boot_health`. -/
def acknowledge (entry : Entry) (m : Manifest) (failed : Option Manifest) : Operation γ Unit := do
  if entry.tries.isSome then write (bless entry) else pure ()
  write fun w => { w with installed := m, acknowledged := identity m :: w.acknowledged }
  match failed with
  | some f => write fun w => { w with failedUpdate := some f }
  | none => pure ()
  write fun w => { w with loader := loaderConfig entry.slot m.sequence false }
  write fun w => { w with pending := none }
  outside

/-- `boot_health`; `authority` is what `release_state_optional` said. -/
def bootHealth (authority : Option ReleaseState) : Operation γ Unit := do
  let entry ← look runningEntry
  let shown ← look fun w => pure (R.identity (w.slots entry.slot))
  if inert authority shown then outside else do
  outside
  let (m, failed) ← look (selectRelease R authority)
  checkAcknowledged authority m
  outside
  acknowledge entry m failed

end Operations

/-! ## Steps of a run -/

section Step

variable {γ : Type} [DecidableEq γ] (R : Releases γ)

/-- A step of the machine: an operation with the replies its process sees, or a reboot. -/
inductive Op where
  | update (m : Manifest) (governed : Governed) (replies : List (Reply Unit))
  | bootHealth (authority : Option ReleaseState) (replies : List (Reply Unit))
  | reboot (choice : Choice) (up : Bool)

/-- What a step leaves. -/
def step (w : Machine γ) : Op → Unit × Machine γ
  | .update m governed replies => ((), (update R m governed).leaves w replies)
  | .bootHealth authority replies => ((), (bootHealth R authority).leaves w replies)
  | .reboot choice up => ((), w.reboot R choice up)

end Step

end LumaOS.Updater
