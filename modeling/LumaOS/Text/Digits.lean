import LumaOS.Text
import Mathlib.Data.List.Lex

/-!
# Decimals of a fixed width

`digits w n` are the last `w` decimal digits of `n`, leading zeros included. They are what
`{n:0w}` writes of a number with at most `w` digits (`padded_eq_digits`), they can be read back
(`ofDigits_digits`), every string of digits is of this form (`digits_ofDigits`), and they are ordered
as the numbers are (`digits_lt`).
-/

namespace LumaOS.Text

/-- The last `w` decimal digits. -/
def digits : Nat → Nat → List Char
  | 0, _ => []
  | w + 1, n => digits w (n / 10) ++ [n % 10 |>.digitChar]

/-- The number that digits write. -/
def ofDigits (cs : List Char) : Nat := Nat.ofDigitChars 10 cs 0

/-- `{n:0w}`. -/
def padded (w n : Nat) : List Char := (Nat.toDigits 10 n).leftpad w '0'

variable {w m n : Nat} {cs ds : List Char}

theorem length_digits : ∀ w n, (digits w n).length = w
  | 0, _ => rfl
  | w + 1, n => by rw [digits, List.length_append, length_digits w]; rfl

theorem isDigit_digits : ∀ {w n : Nat} {c : Char}, c ∈ digits w n → c.isDigit = true
  | w + 1, n, c, h => by
    rw [digits, List.mem_append, List.mem_singleton] at h
    rcases h with h | rfl
    · exact isDigit_digits h
    · rw [Nat.isDigit_digitChar, decide_eq_true_eq]
      exact Nat.mod_lt n (by decide)

theorem ofDigits_append_singleton {c : Char} :
    ofDigits (cs ++ [c]) = 10 * ofDigits cs + (c.toNat - 48) := by
  simp [ofDigits, Nat.ofDigitChars_eq_foldl]

theorem ofDigits_digits : ∀ {w n : Nat}, n < 10 ^ w → ofDigits (digits w n) = n
  | 0, n, h => by
    obtain rfl : n = 0 := by simpa using h
    rfl
  | w + 1, n, h => by
    have hdiv : n / 10 < 10 ^ w := Nat.div_lt_of_lt_mul (by rw [← Nat.pow_succ']; exact h)
    have hmod : n % 10 < 10 := Nat.mod_lt n (by decide)
    rw [digits, ofDigits_append_singleton, ofDigits_digits hdiv,
      Nat.toNat_digitChar_sub_48_of_lt_ten hmod, Nat.div_add_mod]

theorem digitChar_of_isDigit {c : Char} (h : c.isDigit = true) : (c.toNat - 48).digitChar = c := by
  have hrange : 48 ≤ c.toNat ∧ c.toNat ≤ 57 := by
    simp only [Char.isDigit, Bool.and_eq_true, decide_eq_true_eq] at h
    exact ⟨h.1, h.2⟩
  apply Char.toNat_inj.mp
  rw [Nat.toNat_digitChar_of_lt_ten (by omega)]
  omega

theorem isDigit_toNat {c : Char} (h : c.isDigit = true) : c.toNat - 48 < 10 := by
  have hrange : 48 ≤ c.toNat ∧ c.toNat ≤ 57 := by
    simp only [Char.isDigit, Bool.and_eq_true, decide_eq_true_eq] at h
    exact ⟨h.1, h.2⟩
  omega

/-- **Every string of digits** is one of a number. -/
theorem digits_ofDigits : ∀ {w : Nat} {cs : List Char}, cs.length = w →
    (∀ c ∈ cs, c.isDigit = true) → ofDigits cs < 10 ^ w ∧ digits w (ofDigits cs) = cs := by
  intro w
  induction w with
  | zero =>
    intro cs hlength _
    obtain rfl := List.length_eq_zero_iff.mp hlength
    exact ⟨by decide, rfl⟩
  | succ w ih =>
    intro cs hlength hdigits
    rcases List.eq_nil_or_concat cs with rfl | ⟨es, c, rfl⟩
    · cases hlength
    rw [List.concat_eq_append] at hlength hdigits ⊢
    rw [List.length_append, List.length_singleton, Nat.add_right_cancel_iff] at hlength
    obtain ⟨hlt, hes⟩ := ih hlength fun d hd => hdigits d (List.mem_append_left _ hd)
    have hc := hdigits c (List.mem_append_right _ (List.mem_singleton_self c))
    have hc10 := isDigit_toNat hc
    have hdiv : (10 * ofDigits es + (c.toNat - 48)) / 10 = ofDigits es := by omega
    rw [ofDigits_append_singleton, digits, hdiv, Nat.mul_add_mod, Nat.mod_eq_of_lt hc10,
      digitChar_of_isDigit hc, hes]
    refine ⟨?_, rfl⟩
    rw [Nat.pow_succ]
    omega

/-! ## Padding -/

theorem digits_zero : ∀ w, digits w 0 = List.replicate w '0'
  | 0 => rfl
  | w + 1 => by
    rw [digits, Nat.zero_div, digits_zero w, List.replicate_succ']
    rfl

/-- **What `{n:0w}` writes** of a number that fits. -/
theorem padded_eq_digits : ∀ {w n : Nat}, 0 < w → n < 10 ^ w → padded w n = digits w n
  | 1, n, _, h => by
    rw [Nat.pow_one] at h
    rw [padded, Nat.toDigits_of_lt_base h, digits, digits, Nat.mod_eq_of_lt h]
    rfl
  | w + 2, n, _, h => by
    by_cases hten : n < 10
    · rw [padded, Nat.toDigits_of_lt_base hten, digits, Nat.div_eq_of_lt hten, digits_zero,
        Nat.mod_eq_of_lt hten]
      rfl
    · have hdiv : n / 10 < 10 ^ (w + 1) :=
        Nat.div_lt_of_lt_mul (by rw [← Nat.pow_succ']; exact h)
      have ih := padded_eq_digits (Nat.succ_pos w) hdiv
      rw [padded, Nat.toDigits_of_base_le (by decide) (Nat.not_lt.mp hten), digits, ← ih, padded,
        List.leftpad, List.leftpad, List.length_append, List.length_singleton,
        show w + 2 = w.succ + 1 from rfl, Nat.add_sub_add_right, List.append_assoc]

theorem length_padded_eq : (padded w n).length = max w (Nat.toDigits 10 n).length := by
  rw [padded, List.leftpad, List.length_append, List.length_replicate]
  omega

/-- A number that does not fit is written with more digits. -/
theorem length_padded (h : 10 ^ w ≤ n) : w < (padded w n).length := by
  have hlong : ¬ (Nat.toDigits 10 n).length ≤ w := fun hle => by
    rcases Nat.eq_zero_or_pos w with rfl | hw
    · exact Nat.toDigits_ne_nil (List.length_eq_zero_iff.mp (Nat.le_zero.mp hle))
    · exact absurd ((Nat.length_toDigits_le_iff (by decide) hw).mp hle) (Nat.not_lt.mpr h)
  rw [length_padded_eq]
  omega

theorem le_length_padded : w ≤ (padded w n).length := by
  rw [length_padded_eq]
  exact Nat.le_max_left _ _

/-! ## Order -/

/-- Lists of equal lengths come first in a comparison. -/
theorem append_lt_append : ∀ {as bs cs ds : List Char},
    as.length = bs.length → (as ++ cs < bs ++ ds ↔ as < bs ∨ as = bs ∧ cs < ds)
  | [], [], cs, ds, _ => by simp
  | a :: as, b :: bs, cs, ds, h => by
    rw [List.cons_append, List.cons_append, List.cons_lt_cons_iff, List.cons_lt_cons_iff,
      append_lt_append (Nat.succ.inj h), List.cons.injEq]
    tauto

theorem digitChar_lt : ∀ m < 10, ∀ n < 10, m.digitChar < n.digitChar ↔ m < n := by decide

/-- **Decimals of one width are ordered as the numbers are.** -/
theorem digits_lt : ∀ {w m n : Nat}, m < 10 ^ w → n < 10 ^ w → (digits w m < digits w n ↔ m < n)
  | 0, m, n, hm, hn => by
    rw [Nat.pow_zero, Nat.lt_one_iff] at hm hn
    subst hm hn
    simp [digits]
  | w + 1, m, n, hm, hn => by
    have hdiv : ∀ {k}, k < 10 ^ (w + 1) → k / 10 < 10 ^ w := fun hk =>
      Nat.div_lt_of_lt_mul (by rw [← Nat.pow_succ']; exact hk)
    have hsame : digits w (m / 10) = digits w (n / 10) ↔ m / 10 = n / 10 :=
      ⟨fun h => by rw [← ofDigits_digits (hdiv hm), h, ofDigits_digits (hdiv hn)], congrArg _⟩
    rw [digits, digits, append_lt_append (by rw [length_digits, length_digits]),
      digits_lt (hdiv hm) (hdiv hn), hsame, List.cons_lt_cons_iff,
      digitChar_lt _ (Nat.mod_lt m (by decide)) _ (Nat.mod_lt n (by decide))]
    simp only [List.lt_irrefl, and_false, or_false]
    omega

theorem digits_inj (hm : m < 10 ^ w) (hn : n < 10 ^ w) (h : digits w m = digits w n) : m = n := by
  rw [← ofDigits_digits hm, h, ofDigits_digits hn]

end LumaOS.Text
