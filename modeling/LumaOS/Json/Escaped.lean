import LumaOS.Json.Injective
import LumaOS.Json.Size
import Mathlib.Algebra.Order.BigOperators.Group.List
import Mathlib.Algebra.Order.Ring.Nat

/-!
# The exact size of a written value

`sizeBound` counts six bytes for every byte of a string. Where the strings are known to need no
escape, the size is exact, and so is the size that the text has when it is quoted in turn.

* A *measure* of texts adds up over `++`; the number of bytes is one and `escapedSize`, the number of
  bytes behind escaping, is another.
* `Weighs μ q`: under `μ` a text without characters to escape keeps its size, and a quote weighs `q`.
  `Weighs.object` and `Weighs.array` give the weight of a value.
-/

namespace LumaOS.Json

open LumaOS.Text

/-- The size of a text is the sum of the sizes of its parts. -/
def Measure (μ : String → Nat) : Prop := ∀ s t, μ (s ++ t) = μ s + μ t

/-- The bytes of a text behind escaping. -/
def escapedSize (s : String) : Nat := (s.toList.map fun c => (escape c).utf8ByteSize).sum

/-- No character needs an escape. -/
def Verbatim (s : String) : Prop := ∀ c ∈ s.toList, escape c = c.toString

instance decidableVerbatim (s : String) : Decidable (Verbatim s) :=
  inferInstanceAs (Decidable (∀ c ∈ s.toList, escape c = c.toString))

variable {μ : String → Nat} {s t : String} {c : Char} {items : List Value}
  {fields : List (String × Value)}

theorem measure_size : Measure String.utf8ByteSize := fun _ _ => String.utf8ByteSize_append

theorem measure_escaped : Measure escapedSize := fun s t => by
  rw [escapedSize, escapedSize, escapedSize, String.toList_append, List.map_append, List.sum_append]

theorem measure_intercalate (hμ : Measure μ) (sep : String) : ∀ {ts : List String}, ts ≠ [] →
    μ (sep.intercalate ts) + μ sep = (ts.map fun t => μ t + μ sep).sum
  | [], h => absurd rfl h
  | [t], _ => by simp
  | t :: u :: ts, _ => by
    have ih := @measure_intercalate hμ sep (u :: ts) (List.cons_ne_nil u ts)
    rw [String.intercalate_cons_cons, hμ, hμ, List.map_cons, List.sum_cons, ← ih]
    omega

theorem texts_eq_map (items : List Value) : texts items = items.map text := by
  induction items with
  | nil => rfl
  | cons v rest ih => rw [texts, ih, List.map_cons]

theorem fieldTexts_eq_map : ∀ fields : List (String × Value),
    fieldTexts fields = fields.map fun f => quote f.1 ++ ":" ++ text f.2
  | [] => rfl
  | f :: rest => by rw [fieldTexts, fieldTexts_eq_map rest, List.map_cons]

/-! ## Quoted texts -/

theorem escape_verbatim (hlow : 32 ≤ c.toNat) (hquote : c ≠ '"') (hslash : c ≠ '\\') :
    escape c = c.toString := by
  have h8 : ¬ c.toNat = 8 := by omega
  have h12 : ¬ c.toNat = 12 := by omega
  have hn : c ≠ '\n' := by rintro rfl; exact absurd hlow (by decide)
  have hr : c ≠ '\r' := by rintro rfl; exact absurd hlow (by decide)
  have ht : c ≠ '\t' := by rintro rfl; exact absurd hlow (by decide)
  rw [escape, if_neg hquote, if_neg hslash, if_neg h8, if_neg h12, if_neg hn, if_neg hr, if_neg ht,
    if_neg (by omega)]

theorem Verbatim.append (hs : Verbatim s) (ht : Verbatim t) : Verbatim (s ++ t) := by
  intro c hc
  rw [String.toList_append] at hc
  rcases List.mem_append.mp hc with hc | hc
  · exact hs c hc
  · exact ht c hc

theorem utf8ByteSize_eq_sum (s : String) :
    s.utf8ByteSize = (s.toList.map Char.utf8Size).sum := by
  have hlist : ∀ l : List Char, (String.ofList l).utf8ByteSize = (l.map Char.utf8Size).sum := by
    intro l
    induction l with
    | nil => rfl
    | cons c l ih =>
      rw [String.ofList_cons, String.utf8ByteSize_append, String.utf8ByteSize_singleton, ih,
        List.map_cons, List.sum_cons]
  have h := hlist s.toList
  rwa [String.ofList_toList] at h

/-- A text without characters to escape keeps its size. -/
theorem escapedSize_verbatim (h : Verbatim s) : escapedSize s = s.utf8ByteSize := by
  rw [escapedSize, utf8ByteSize_eq_sum]
  refine congrArg List.sum (List.map_congr_left fun c hc => ?_)
  rw [h c hc, Char.toString, String.utf8ByteSize_singleton]

/-- Escaping shortens nothing. -/
theorem utf8ByteSize_le_escapedSize (s : String) : s.utf8ByteSize ≤ escapedSize s := by
  have hchar : ∀ c : Char, c.utf8Size ≤ (escape c).utf8ByteSize := by
    intro c
    by_cases hplain : escape c = c.toString
    · rw [hplain, Char.toString, String.utf8ByteSize_singleton]
    · have hascii : c.toNat ≤ 127 := by
        by_contra hhigh
        refine hplain (escape_verbatim (by omega) ?_ ?_) <;> rintro rfl <;>
          exact absurd hhigh (by decide)
      have hone : c.utf8Size = 1 := Char.utf8Size_eq_one_iff.mpr (UInt32.le_iff_toNat_le.mpr hascii)
      have hne : escape c ≠ "" := by
        unfold escape
        split_ifs <;> simp [hex, ← String.toList_inj]
      have hpos : 0 < (escape c).utf8ByteSize := Nat.pos_of_ne_zero fun h =>
        hne (String.utf8ByteSize_eq_zero_iff.mp h)
      omega
  rw [utf8ByteSize_eq_sum, escapedSize]
  exact List.sum_le_sum fun c _ => hchar c

/-- **The size of a quoted text.** -/
theorem utf8ByteSize_quote (s : String) : (quote s).utf8ByteSize = escapedSize s + 2 := by
  have hjoin : ∀ l : List Char, (String.join (l.map escape)).utf8ByteSize =
      (l.map fun c => (escape c).utf8ByteSize).sum := by
    intro l
    induction l with
    | nil => rfl
    | cons c l ih =>
      rw [List.map_cons, String.join_cons, String.utf8ByteSize_append, ih, List.map_cons,
        List.sum_cons]
  have h1 : "\"".utf8ByteSize = 1 := rfl
  rw [quote, String.utf8ByteSize_append, String.utf8ByteSize_append, hjoin, h1, escapedSize]
  omega

theorem quote_verbatim (h : Verbatim s) : quote s = "\"" ++ s ++ "\"" := by
  have hjoin : ∀ l : List Char, (∀ c ∈ l, escape c = c.toString) →
      String.join (l.map escape) = String.ofList l := by
    intro l
    induction l with
    | nil => exact fun _ => rfl
    | cons c l ih =>
      intro hl
      obtain ⟨hc, hl⟩ := List.forall_mem_cons.mp hl
      rw [List.map_cons, String.join_cons, hc, ih hl, String.ofList_cons]
      rfl
  rw [quote, hjoin s.toList h, String.ofList_toList]

/-- Digits are copied. -/
theorem verbatim_nat (n : Nat) : Verbatim (toString (n : Int)) := by
  intro c hc
  rw [toList_int, if_pos (Int.natCast_nonneg _), Int.toNat_natCast] at hc
  have hdigit : c.isDigit = true := Nat.isDigit_of_mem_toDigits (by decide) (by decide) hc
  have hc := Char.isDigit_iff_toNat.mp hdigit
  refine escape_verbatim (by have : '0'.toNat = 48 := rfl; omega) ?_ ?_
  · rintro rfl
    exact absurd hdigit (by decide)
  · rintro rfl
    exact absurd hdigit (by decide)

/-! ## Values -/

/-- A measure under which a copied text has its size and a quote weighs `q`. -/
structure Weighs (μ : String → Nat) (q : Nat) : Prop where
  measure : Measure μ
  verbatim : ∀ s, Verbatim s → μ s = s.utf8ByteSize
  quote : μ "\"" = q

theorem weighs_size : Weighs String.utf8ByteSize 1 := ⟨measure_size, fun _ _ => rfl, rfl⟩

/-- An escaped quote takes two bytes. -/
theorem weighs_escaped : Weighs escapedSize 2 :=
  ⟨measure_escaped, fun _ h => escapedSize_verbatim h, by decide⟩

variable {q n : Nat}

theorem Weighs.quoted (hμ : Weighs μ q) (h : Verbatim s) : μ (Json.quote s) = s.utf8ByteSize + 2 * q := by
  rw [quote_verbatim h, hμ.measure, hμ.measure, hμ.verbatim s h, hμ.quote]
  omega

theorem Weighs.string (hμ : Weighs μ q) (h : Verbatim s) :
    μ (text (.string s)) = s.utf8ByteSize + 2 * q := by
  rw [text, hμ.quoted h]

theorem Weighs.number (hμ : Weighs μ q) (n : Nat) :
    μ (text (.number n)) = (Nat.toDigits 10 n).length := by
  rw [text, hμ.verbatim _ (verbatim_nat n), size_nat]

/-- **An array**: its items with a comma behind each but the last. -/
theorem Weighs.array (hμ : Weighs μ q) (h : items ≠ []) :
    μ (text (.array items)) = 1 + (items.map fun v => μ (text v) + 1).sum := by
  have hne : items.map text ≠ [] := fun hnil => h (List.map_eq_nil_iff.mp hnil)
  have hsum := measure_intercalate hμ.measure "," hne
  have hcomma : μ "," = 1 := hμ.verbatim "," (by decide)
  have hopen : μ "[" = 1 := hμ.verbatim "[" (by decide)
  have hclose : μ "]" = 1 := hμ.verbatim "]" (by decide)
  rw [List.map_map, hcomma] at hsum
  rw [text, hμ.measure, hμ.measure, texts_eq_map, hopen, hclose]
  change _ = _ + (items.map ((fun t => μ t + 1) ∘ text)).sum
  omega

/-- **An object**: its fields with a colon inside each and a comma behind each but the last. -/
theorem Weighs.object (hμ : Weighs μ q) (h : fields ≠ []) :
    μ (text (.object fields)) =
      1 + (fields.map fun f => μ (Json.quote f.1) + μ (text f.2) + 2).sum := by
  have hne : (fields.map fun f => Json.quote f.1 ++ ":" ++ text f.2) ≠ [] :=
    fun hnil => h (List.map_eq_nil_iff.mp hnil)
  have hsum := measure_intercalate hμ.measure "," hne
  have hcomma : μ "," = 1 := hμ.verbatim "," (by decide)
  have hcolon : μ ":" = 1 := hμ.verbatim ":" (by decide)
  have hopen : μ "\x7b" = 1 := hμ.verbatim "\x7b" (by decide)
  have hclose : μ "\x7d" = 1 := hμ.verbatim "\x7d" (by decide)
  have hfields : (fields.map fun f => μ (Json.quote f.1) + μ (text f.2) + 2) =
      fields.map ((fun t => μ t + 1) ∘ fun f => Json.quote f.1 ++ ":" ++ text f.2) :=
    List.map_congr_left fun f _ => by
      rw [Function.comp_apply, hμ.measure, hμ.measure, hcolon]
      omega
  rw [List.map_map, hcomma] at hsum
  rw [text, hμ.measure, hμ.measure, fieldTexts_eq_map, hopen, hclose, hfields]
  omega

end LumaOS.Json
