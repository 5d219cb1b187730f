import LumaOS.Base.Pool
import LumaOS.Base.Table
import LumaOS.Text

/-!
# The digest anchor

`DigestCheckpoint` and the compare-and-swap of `InMemoryDigestAnchor` (`monotonic_anchor.py`), one
action each for a read and for a swap. An anchor holds at most one checkpoint for each namespace and
replaces it only by one of the next generation and a higher sequence (`Replaces`).
-/

namespace LumaOS.Anchors

open LumaOS.Base LumaOS.Text

/-- What the modules raise. -/
inductive Failure where
  | signingTrust (message : String)
  | trustDenied (message : String)
  | trustConflict (message : String)
  | anchorInvalid (message : String)
  | catalogInvalid (message : String)
  | catalogDenied (message : String)
  | catalogConflict (message : String)
  | other (message : String)

/-- `JSON_SAFE_INTEGER_MAX`. -/
def jsonSafeIntegerMax : Nat := 2 ^ 53 - 1

structure DigestCheckpoint where
  nameSpace : String
  generation : Nat
  sequence : Nat
  artifactSha256 : String
deriving DecidableEq

/-- `_identifier`. -/
def isIdentifier (value : String) : Bool :=
  !value.isEmpty && value.length ≤ 256 && value.toList.all fun c => 0x21 ≤ c.toNat && c.toNat ≤ 0x7E

/-- `_positive_integer`. -/
def isPositive (value : Nat) : Bool := 1 ≤ value && value ≤ jsonSafeIntegerMax

/-- `DigestCheckpoint(…)` with its `__post_init__`. -/
def DigestCheckpoint.make (nameSpace : String) (generation sequence : Nat)
    (artifactSha256 : String) : Except Failure DigestCheckpoint := do
  raiseIf (!isIdentifier nameSpace)
    (Failure.anchorInvalid
      "checkpoint namespace must be a non-empty trimmed printable ASCII identifier")
  raiseIf (!isPositive generation)
    (Failure.anchorInvalid "checkpoint generation must be a positive JSON-safe integer")
  raiseIf (!isPositive sequence)
    (Failure.anchorInvalid "checkpoint sequence must be a positive JSON-safe integer")
  raiseIf (!isHash artifactSha256)
    (Failure.anchorInvalid "checkpoint artifact_sha256 must be a lowercase SHA-256 digest")
  pure ⟨nameSpace, generation, sequence, artifactSha256⟩

/-- The checkpoints by namespace. -/
abbrev Anchor := Table DigestCheckpoint

inductive Action where
  | read
  | swap
deriving DecidableEq

abbrev Call (α : Type) := Prog Action Anchor Failure α

open Prog (transaction)

/-- `InMemoryDigestAnchor.read`. -/
def read (nameSpace : String) : Call (Option DigestCheckpoint) :=
  transaction .read do
    raiseIf (!isIdentifier nameSpace)
      (Failure.anchorInvalid
        "anchor namespace must be a non-empty trimmed printable ASCII identifier")
    let anchor ← get
    pure anchor[nameSpace]?

/-- The generation a replacement must have. -/
def nextGeneration (current : Option DigestCheckpoint) : Nat :=
  (current.map (·.generation)).getD 0 + 1

/-- The sequence a replacement may have. -/
def sequenceAdvances (current : Option DigestCheckpoint) (replacement : DigestCheckpoint) :
    Except Failure Unit :=
  match current with
  | none =>
    raiseIf (replacement.sequence != 1)
      (Failure.anchorInvalid "a new namespace must begin at sequence one")
  | some current =>
    raiseIf (replacement.sequence ≤ current.sequence)
      (Failure.anchorInvalid "replacement sequence must advance monotonically")

/-- The body of `InMemoryDigestAnchor.compare_and_swap`. -/
def swapBody (expected : Option DigestCheckpoint) (replacement : DigestCheckpoint) :
    Proc Failure Anchor Bool := do
  raiseIf (expected.any fun e => e.nameSpace != replacement.nameSpace)
    (Failure.anchorInvalid "expected and replacement namespaces differ")
  let anchor ← get
  if anchor[replacement.nameSpace]? != expected then pure false
  else
    raiseIf (replacement.generation != nextGeneration expected)
      (Failure.anchorInvalid "replacement generation must advance exactly once")
    sequenceAdvances expected replacement
    modify fun anchor => anchor.insert replacement.nameSpace replacement
    pure true

/-- `InMemoryDigestAnchor.compare_and_swap`. -/
def compareAndSwap (expected : Option DigestCheckpoint) (replacement : DigestCheckpoint) :
    Call Bool := transaction .swap (swapBody expected replacement)

/-- **A checkpoint and the one that replaces it.** -/
structure Replaces (current : Option DigestCheckpoint) (next : DigestCheckpoint) : Prop where
  generation : next.generation = nextGeneration current
  first : current = none → next.sequence = 1
  advances : ∀ c, current = some c → c.sequence < next.sequence

/-- The anchor after a swap that took place. -/
structure Swapped (expected : Option DigestCheckpoint) (replacement : DigestCheckpoint)
    (anchor anchor' : Anchor) : Prop where
  before : anchor[replacement.nameSpace]? = expected
  after : anchor' = anchor.insert replacement.nameSpace replacement
  replaces : Replaces expected replacement

open Proc

theorem returns_swapBody (expected : Option DigestCheckpoint) (replacement : DigestCheckpoint)
    (anchor : Anchor) :
    Returns (swapBody expected replacement) anchor fun changed anchor' =>
      if changed then Swapped expected replacement anchor anchor' else anchor' = anchor := by
  refine returns_bind_raiseIf fun _ => returns_bind_get ?_
  by_cases hcurrent : anchor[replacement.nameSpace]? = expected
  · rw [if_neg (by simpa using hcurrent)]
    refine returns_bind_raiseIf fun hgeneration => returns_bind_lift fun _ hsequence =>
      returns_bind_modify (returns_pure ?_)
    rw [if_pos rfl]
    refine ⟨hcurrent, rfl, by simpa using hgeneration, ?_, ?_⟩
    · rintro rfl
      simpa [sequenceAdvances] using raiseIf_eq_ok.mp hsequence
    · rintro c rfl
      have hlt := raiseIf_eq_ok.mp hsequence
      simpa using hlt
  · rw [if_pos (by simpa using hcurrent)]
    exact returns_pure rfl

end LumaOS.Anchors
