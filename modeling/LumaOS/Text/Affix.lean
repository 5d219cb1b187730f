import LumaOS.Text
import Mathlib.Data.List.TakeWhile

/-!
# Names with fixed parts

`str::strip_prefix`, `strip_suffix`, `split_once` and `parse::<u64>`, which take the name of a file
apart.
-/

namespace LumaOS.Text

/-- `str::strip_prefix`. -/
def stripPrefix (start s : String) : Option String :=
  if start.toList.isPrefixOf s.toList then
    some (String.ofList (s.toList.drop start.toList.length))
  else none

/-- `str::strip_suffix`. -/
def stripSuffix (tail s : String) : Option String :=
  if tail.toList.isSuffixOf s.toList then
    some (String.ofList (s.toList.take (s.toList.length - tail.toList.length)))
  else none

/-- `str::starts_with`. -/
def startsWith (start s : String) : Bool := start.toList.isPrefixOf s.toList

/-- `str::split_once` at a character. -/
def splitOnce (c : Char) (s : String) : Option (String × String) :=
  if s.toList.contains c then
    some (String.ofList (s.toList.takeWhile (· != c)),
      String.ofList ((s.toList.dropWhile (· != c)).drop 1))
  else none

/-- The digits of `str::parse::<u64>`, behind an optional plus sign. -/
def unsigned (s : String) : List Char :=
  match s.toList with
  | '+' :: digits => digits
  | digits => digits

/-- `str::parse::<u64>`. -/
def parseU64 (s : String) : Option Nat :=
  if (unsigned s).isEmpty || !(unsigned s).all Char.isDigit then none
  else if Nat.ofDigitChars 10 (unsigned s) 0 < 2 ^ 64 then
    some (Nat.ofDigitChars 10 (unsigned s) 0)
  else none

/-- `str::parse::<u32>`. -/
def parseU32 (s : String) : Option Nat := (parseU64 s).filter (· < 2 ^ 32)

def invalidDigit : String := "invalid digit found in string"

variable {start tail s r : String}

theorem startsWith_iff : startsWith start s = true ↔ ∃ r, s = start ++ r := by
  rw [startsWith, List.isPrefixOf_iff_prefix]
  constructor
  · rintro ⟨t, ht⟩
    exact ⟨String.ofList t, String.toList_inj.mp (by rw [← ht]; simp)⟩
  · rintro ⟨r, rfl⟩
    exact ⟨r.toList, by simp⟩

theorem stripPrefix_eq_some : stripPrefix start s = some r ↔ s = start ++ r := by
  unfold stripPrefix
  constructor
  · intro h
    split at h
    · rename_i hprefix
      obtain ⟨t, ht⟩ := List.isPrefixOf_iff_prefix.mp hprefix
      rw [← ht, List.drop_left, Option.some.injEq] at h
      rw [← String.toList_inj, ← ht, ← h]
      simp
    · cases h
  · rintro rfl
    have hprefix : start.toList.isPrefixOf (start ++ r).toList = true := by
      rw [List.isPrefixOf_iff_prefix]
      exact ⟨r.toList, by simp⟩
    rw [if_pos hprefix]
    simp

theorem stripSuffix_eq_some : stripSuffix tail s = some r ↔ s = r ++ tail := by
  unfold stripSuffix
  constructor
  · intro h
    split at h
    · rename_i hsuffix
      obtain ⟨t, ht⟩ := List.isSuffixOf_iff_suffix.mp hsuffix
      rw [← ht, List.length_append, Nat.add_sub_cancel, List.take_left, Option.some.injEq] at h
      rw [← String.toList_inj, ← ht, ← h]
      simp
    · cases h
  · rintro rfl
    have hsuffix : tail.toList.isSuffixOf (r ++ tail).toList = true := by
      rw [List.isSuffixOf_iff_suffix]
      exact ⟨r.toList, by simp⟩
    rw [if_pos hsuffix]
    simp

theorem splitOnce_eq_some {c : Char} {a b : String} (h : splitOnce c s = some (a, b)) :
    s = a ++ String.singleton c ++ b := by
  unfold splitOnce at h
  split at h
  · rename_i hmem
    cases h
    rw [List.contains_iff_mem] at hmem
    have hdrop : s.toList.dropWhile (· != c) = c :: (s.toList.dropWhile (· != c)).drop 1 := by
      cases hrest : s.toList.dropWhile (· != c) with
      | nil =>
        have hall := List.takeWhile_append_dropWhile (p := (· != c)) (l := s.toList)
        rw [hrest, List.append_nil] at hall
        rw [← hall] at hmem
        simpa using List.mem_takeWhile_imp hmem
      | cons x rest =>
        have hx := List.head?_dropWhile_not (· != c) s.toList
        rw [hrest] at hx
        simp_all
    rw [← String.toList_inj]
    simp only [String.toList_append, String.toList_ofList, String.toList_singleton]
    conv_lhs => rw [← List.takeWhile_append_dropWhile (p := (· != c)) (l := s.toList), hdrop]
    simp
  · cases h

theorem parseU64_lt {n : Nat} (h : parseU64 s = some n) : n < 2 ^ 64 := by
  unfold parseU64 at h
  split at h
  · cases h
  · split at h
    · rename_i hlt
      cases h
      exact hlt
    · cases h

theorem unsigned_toDigits (n : Nat) :
    unsigned (String.ofList (Nat.toDigits 10 n)) = Nat.toDigits 10 n := by
  unfold unsigned
  rw [String.toList_ofList]
  split
  · rename_i digits heq
    have hplus : '+' ∈ Nat.toDigits 10 n := heq ▸ List.mem_cons_self
    exact absurd (Nat.isDigit_of_mem_toDigits (by decide) (by decide) hplus) (by decide)
  · rfl

/-- **A printed number is read back.** -/
theorem parseU32_toDigits {n : Nat} (h : n < 2 ^ 32) :
    parseU32 (String.ofList (Nat.toDigits 10 n)) = some n := by
  have hdigits : (Nat.toDigits 10 n).all Char.isDigit = true := by
    rw [List.all_eq_true]
    exact fun c hc => Nat.isDigit_of_mem_toDigits (by decide) (by decide) hc
  have hnil : (Nat.toDigits 10 n).isEmpty = false := by
    rw [List.isEmpty_eq_false_iff]
    exact Nat.toDigits_ne_nil
  rw [parseU32, parseU64, unsigned_toDigits, hnil, hdigits, Nat.ofDigitChars_ten_toDigits,
    if_neg (by decide), if_pos (by omega), Option.filter_some, if_pos (by simpa using h)]

theorem utf8ByteSize_of_isHash (h : isHash s = true) : s.utf8ByteSize = 64 := by
  simp only [isHash, Bool.and_eq_true, beq_iff_eq] at h
  exact h.1

/-- Two starts of one name: one of them is a start of the other. -/
theorem startsWith_total {other : String} (h : startsWith start s = true)
    (h' : startsWith other s = true) :
    startsWith start other = true ∨ startsWith other start = true := by
  unfold startsWith at h h' ⊢
  simp only [List.isPrefixOf_iff_prefix] at h h' ⊢
  exact List.prefix_or_prefix_of_prefix h h'

/-- Starts that differ on the way keep names apart. -/
theorem not_startsWith {other : String} (h : startsWith start s = true)
    (ha : startsWith start other = false) (hb : startsWith other start = false) :
    startsWith other s = false := by
  by_contra hs
  rcases startsWith_total h (by simpa using hs) with h | h
  · rw [ha] at h
    cases h
  · rw [hb] at h
    cases h

end LumaOS.Text
