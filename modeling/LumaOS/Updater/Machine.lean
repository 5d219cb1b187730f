import LumaOS.Governance.ReleaseTrust
import LumaOS.Base.Interrupt

/-!
# The machine under the updater

What `platform.rs:1453-1569`, `:2667-2751` and `:2947-3081` read and write: the two root slots, the
boot entries of the ESP, the loader's default, `installed.json`, `pending.json` and
`failed-update.json`; and the boot loader.

A slot holds the blocks of its root and hash partitions. `Releases` is what signing and dm-verity
promise: an image tells its release. An entry is a file
`luma-<slot>-<sequence>[+<left>-<done>].efi` with the kernel image of a release; the pattern of
`loader.conf` selects an entry with a counter of one to three, or the counter-free one.

The last three fields are the history that results speak of; no code reads them.
-/

namespace LumaOS.Updater

open LumaOS.Base LumaOS.Text LumaOS.Governance

/-! ## Releases -/

/-- A root slot. -/
inductive Slot where
  | a
  | b
deriving DecidableEq

/-- `if running_slot()? == 'a' { 'b' } else { 'a' }`. -/
def Slot.other : Slot → Slot
  | .a => .b
  | .b => .a

/-- What a running system shows of its release: `RunningIdentity` and the verity device. -/
structure Identity where
  release : String
  sequence : UInt64
  environment : String
  architecture : String
  ubuntu : String
  edition : String
  rootHash : String
  rootBytes : UInt64
deriving DecidableEq

/-- The identity a manifest names. -/
def identity (m : Manifest) : Identity :=
  ⟨m.release, m.sequence, m.environment, m.architecture, m.ubuntu, m.edition, m.rootHash,
    m.rootBytes⟩

/-- A partition of a slot. -/
inductive Part where
  | root
  | hash
deriving DecidableEq

/-- The blocks of a slot's two partitions. -/
abbrev Content (γ : Type) := Part → List γ

/-- The slot begins with the image: it is an intact copy of it. -/
def Content.Holds {γ : Type} (c image : Content γ) : Prop :=
  image .root <+: c .root ∧ image .hash <+: c .hash

instance decidableHolds {γ : Type} [DecidableEq γ] (c image : Content γ) :
    Decidable (c.Holds image) :=
  inferInstanceAs (Decidable (image .root <+: c .root ∧ image .hash <+: c .hash))

/-- The images of signed releases, and the identity that a slot's content shows. -/
structure Releases (γ : Type) where
  image : Manifest → Content γ
  identity : Content γ → Identity
  reads : ∀ m c, c.Holds (image m) → identity c = Updater.identity m

/-! ## The boot loader -/

/-- A boot entry; `tries` are those left and those done. -/
structure Entry where
  slot : Slot
  sequence : UInt64
  tries : Option (Nat × Nat)
  manifest : Manifest
deriving DecidableEq

/-- The file name of an entry, without what every name has. -/
def Entry.name (e : Entry) : Slot × UInt64 × Option (Nat × Nat) := (e.slot, e.sequence, e.tries)

/-- The tries an entry has left. -/
def Entry.left (e : Entry) : Nat := (e.tries.map Prod.fst).getD 0

/-- The default of `loader.conf`. -/
structure Pattern where
  slot : Slot
  sequence : UInt64
  trial : Bool
deriving DecidableEq

/-- `loader_config`. -/
def loaderConfig (slot : Slot) (sequence : UInt64) (trial : Bool) : Pattern :=
  ⟨slot, sequence, trial⟩

/-- The pattern matches the name: `+[1-3]*` of a trial, the exact counter-free name otherwise. -/
def Pattern.selects (p : Pattern) (e : Entry) : Bool :=
  p.slot == e.slot && p.sequence == e.sequence &&
    match e.tries with
    | none => !p.trial
    | some (left, _) => p.trial && 1 ≤ left && left ≤ 3

/-- The loader moves the counter when it boots an entry. -/
def Entry.bump (e : Entry) : Entry :=
  { e with tries := e.tries.map fun t => (t.1 - 1, t.2 + 1) }

/-- The entry under its counter-free name. -/
def Entry.blessed (e : Entry) : Entry := { e with tries := none }

/-- Write an entry over the one of its name. -/
def putEntry (entries : List Entry) (e : Entry) : List Entry :=
  e :: entries.filter fun x => x.name != e.name

/-- Remove an entry by its name. -/
def removeEntry (entries : List Entry) (e : Entry) : List Entry :=
  entries.filter fun x => x.name != e.name

/-! ## The machine -/

/-- The state of a machine. -/
structure Machine (γ : Type) where
  slots : Slot → Content γ
  entries : List Entry
  loader : Pattern
  installed : Manifest
  pending : Option Manifest
  failedUpdate : Option Manifest
  /-- The entry of the running system, under its name after the boot. -/
  running : Option Entry
  /-- The releases `installed.json` has named. -/
  acknowledged : List Identity
  /-- The releases of the entries booted. -/
  booted : List Manifest
  /-- The releases of the entries that the default selected and booted. -/
  defaulted : List Manifest

/-- Whether and how the loader comes to an entry. -/
inductive Choice where
  | byDefault (e : Entry)
  | fallback (e : Entry)
  | byHand (e : Entry)

def Choice.entry : Choice → Entry
  | .byDefault e => e
  | .fallback e => e
  | .byHand e => e

section Machine

variable {γ : Type} [DecidableEq γ] (R : Releases γ)

/-- The loader may take the choice: the default where it selects an entry, an entry that is not
exhausted where it selects none, any entry at the operator's hand. -/
def Machine.offers (w : Machine γ) : Choice → Bool
  | .byDefault e => w.entries.contains e && w.loader.selects e
  | .fallback e => w.entries.contains e && !(w.entries.any w.loader.selects) &&
      (e.tries.isNone || e.left != 0)
  | .byHand e => w.entries.contains e

/-- The machine goes down. -/
def Machine.down (w : Machine γ) : Machine γ := { w with running := none }

/-- The loader boots an entry; the system comes up if its slot is an intact copy and `up` says so. -/
def Machine.boot (w : Machine γ) (e : Entry) (up : Bool) : Machine γ :=
  { w with
    entries := putEntry (removeEntry w.entries e) e.bump
    running := if up && decide ((w.slots e.slot).Holds (R.image e.manifest)) then some e.bump
      else none
    booted := e.manifest :: w.booted }

/-- A reboot, under the loader's choice. -/
def Machine.reboot (w : Machine γ) (choice : Choice) (up : Bool) : Machine γ :=
  if w.offers choice then
    let booted := w.boot R choice.entry up
    match choice with
    | .byDefault e => { booted with defaulted := e.manifest :: w.defaulted }
    | _ => booted
  else w.down

/-- What an installation leaves: both slots hold the release, the first under trial unless the
release is a production one. `spare` is what lies behind the images. -/
def Machine.afterInstall (m : Manifest) (spare : Slot → Content γ) : Machine γ where
  slots s part := R.image m part ++ spare s part
  entries := [⟨.a, m.sequence, if m.environment != "production" then some (3, 0) else none, m⟩,
    ⟨.b, m.sequence, none, m⟩]
  loader := loaderConfig .a m.sequence (m.environment != "production")
  installed := m
  pending := none
  failedUpdate := none
  running := none
  acknowledged := [Updater.identity m]
  booted := []
  defaulted := []

end Machine

end LumaOS.Updater
