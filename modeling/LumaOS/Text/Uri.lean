import LumaOS.Text
import Mathlib.Data.List.Infix

/-!
# File names in SQLite URIs

What `sqlite3_open_v2` makes of `file:`, a path and a query: an authority has to be empty or
`localhost`, the name ends at `#` and `?`, and percent escapes are decoded (`uriFile`). A path names
itself if and only if it is `Plain` (`uriFile_eq_self_iff`).
-/

namespace LumaOS.Text

/-- The value of a hexadecimal digit. -/
def hexOctet (b : UInt8) : Option UInt8 :=
  if 48 ≤ b ∧ b ≤ 57 then some (b - 48)
  else if 65 ≤ b ∧ b ≤ 70 then some (b - 55)
  else if 97 ≤ b ∧ b ≤ 102 then some (b - 87)
  else none

/-- The octet of a percent escape. -/
def octet (c x y : UInt8) : Option UInt8 :=
  if c = 37 then do
    let high ← hexOctet x
    let low ← hexOctet y
    pure (high * 16 + low)
  else none

/-- `#` or `?`. -/
def endsName (c : UInt8) : Bool := c == 35 || c == 63

/-- The name; an escaped NUL ends it too. -/
def uriName : Bytes → Bytes
  | c :: x :: y :: rest =>
    if endsName c then []
    else match octet c x y with
      | some b => if b = 0 then [] else b :: uriName rest
      | none => c :: uriName (x :: y :: rest)
  | c :: rest => if endsName c then [] else c :: uriName rest
  | [] => []

/-- The file that `file:` and the path name; any other authority is refused. -/
def uriFile : Bytes → Option Bytes
  | 47 :: 47 :: rest =>
    let authority := rest.takeWhile (· != 47)
    if authority = [] ∨ authority = "localhost".toList.map (fun c => UInt8.ofNat c.toNat) then
      some (uriName (rest.dropWhile (· != 47)))
    else none
  | path => some (uriName path)

/-- Nothing in the path has a meaning in a URI. -/
structure Plain (path : Bytes) : Prop where
  root : ¬[47, 47] <+: path
  ends : ∀ c ∈ path, endsName c = false
  escapes : ∀ c x y, [c, x, y] <:+: path → octet c x y = none

theorem length_uriName_le (path : Bytes) : (uriName path).length ≤ path.length := by
  fun_induction uriName path <;> simp_all
  omega

/-- The escapes of a path begin at its first octet or after it. -/
theorem escapes_cons {c : UInt8} {rest : Bytes} :
    (∀ c' x y, [c', x, y] <:+: c :: rest → octet c' x y = none) ↔
      (∀ x y, [x, y] <+: rest → octet c x y = none) ∧
        ∀ c' x y, [c', x, y] <:+: rest → octet c' x y = none := by
  refine ⟨fun h => ⟨fun x y hfirst => h c x y (List.cons_prefix_cons.mpr ⟨rfl, hfirst⟩).isInfix,
    fun c' x y hrest => h c' x y (List.infix_cons hrest)⟩, fun h c' x y hinfix => ?_⟩
  rcases List.infix_cons_iff.mp hinfix with hprefix | hrest
  · obtain ⟨rfl, hfirst⟩ := List.cons_prefix_cons.mp hprefix
    exact h.1 x y hfirst
  · exact h.2 c' x y hrest

theorem uriName_eq_self_iff {path : Bytes} : uriName path = path ↔
    (∀ c ∈ path, endsName c = false) ∧ ∀ c x y, [c, x, y] <:+: path → octet c x y = none := by
  have hescaped : ∀ {c x y b : UInt8} {rest : Bytes}, octet c x y = some b →
      ¬∀ c' x' y', [c', x', y'] <:+: c :: x :: y :: rest → octet c' x' y' = none := by
    intro c x y b rest hoctet h
    rw [h c x y ⟨[], rest, rfl⟩] at hoctet
    cases hoctet
  fun_induction uriName path with
  | case1 c x y rest hends => simp [hends]
  | case2 c x y rest hends hoctet => exact ⟨nofun, fun h => absurd h.2 (hescaped hoctet)⟩
  | case3 c x y rest hends b hoctet =>
    refine ⟨fun h => ?_, fun h => absurd h.2 (hescaped hoctet)⟩
    -- an escape makes the name shorter
    have hlength := congrArg List.length (List.cons.inj h).2
    have := length_uriName_le rest
    simp only [List.length_cons] at hlength
    omega
  | case4 c x y rest hends hoctet ih =>
    simp [ih, hends, @escapes_cons c, List.cons_prefix_cons, hoctet]
  | case5 c rest hshort hends => simp [hends]
  | case6 c rest hshort hends ih =>
    have hfirst : ∀ x y, [x, y] <+: rest → octet c x y = none := fun x y ⟨_, heq⟩ =>
      absurd heq.symm (hshort x y _)
    simp [ih, hends, escapes_cons, iff_true_intro hfirst]
  | case7 => simp

/-- **The paths that name themselves.** -/
theorem uriFile_eq_self_iff {path : Bytes} : uriFile path = some path ↔ Plain path := by
  unfold uriFile
  split
  · rename_i rest
    refine ⟨fun h => ?_, fun h => absurd ⟨rest, rfl⟩ h.root⟩
    -- the authority is not part of the name
    have hshort := length_uriName_le (rest.dropWhile (· != 47))
    have hdrop := (List.dropWhile_suffix (l := rest) (· != 47)).length_le
    dsimp only at h
    split at h
    · rw [Option.some.inj h] at hshort
      simp only [List.length_cons] at hshort
      omega
    · cases h
  · rename_i hroot
    rw [Option.some.injEq, uriName_eq_self_iff]
    refine ⟨fun h => ⟨fun ⟨rest, heq⟩ => hroot rest heq.symm, h.1, h.2⟩, fun h => ⟨h.ends, h.escapes⟩⟩

/-- `/back#1/x` is cut to `/back`. -/
example : uriFile [47, 98, 97, 99, 107, 35, 49, 47, 120] = some [47, 98, 97, 99, 107] := by decide

end LumaOS.Text
