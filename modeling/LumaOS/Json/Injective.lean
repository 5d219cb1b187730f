import LumaOS.Json

/-!
# Compact text determines the value

Two values with the same `serde_json::to_vec` bytes are equal (`toVec_injective`), so a digest over
such bytes is a digest of the record they were written from.

The proof reads a text from the front. An escape, a quoted string, a number and a value each end
where they end: of two texts that agree with what follows them, the first parts agree and so do the
rests (`escape_read`, `quoted_read`, `number_read`, `text_read`). Only a number needs to know that
no further digit follows.
-/

namespace LumaOS.Json

open LumaOS.Text

/-! ## Strings -/

/-- One character off the front of a string's text. -/
def unescape : List Char → Option (Char × List Char)
  | '\\' :: 'b' :: rest => some (Char.ofNat 8, rest)
  | '\\' :: 'f' :: rest => some (Char.ofNat 12, rest)
  | '\\' :: 'n' :: rest => some ('\n', rest)
  | '\\' :: 'r' :: rest => some ('\r', rest)
  | '\\' :: 't' :: rest => some ('\t', rest)
  | '\\' :: 'u' :: _ :: _ :: hi :: lo :: rest =>
    some (Char.ofNat (16 * hexValue hi + hexValue lo), rest)
  | '\\' :: c :: rest => some (c, rest)
  | c :: rest => some (c, rest)
  | [] => none

theorem unescape_plain {c : Char} (h : c ≠ '\\') (r : List Char) :
    unescape (c :: r) = some (c, r) := by
  unfold unescape
  split
  case h_8 heq => cases heq; rfl
  case h_9 heq => cases heq
  all_goals
    rename_i heq
    cases heq
    exact absurd rfl h

/-- The control characters without an escape of their own. -/
theorem unescape_control {c : Char} (h : c.toNat < 32) (r : List Char) :
    unescape (("\\u" ++ hex [0, UInt8.ofNat c.toNat]).toList ++ r) = some (c, r) := by
  have hbyte : (UInt8.ofNat c.toNat).toNat = c.toNat := by
    rw [UInt8.toNat_ofNat']
    omega
  have htext : ("\\u" ++ hex [0, UInt8.ofNat c.toNat]).toList ++ r =
      '\\' :: 'u' :: '0' :: '0' :: hexDigit (c.toNat / 16) :: hexDigit (c.toNat % 16) :: r := by
    simp only [hex, String.toList_append, String.toList_ofList, List.flatMap_cons,
      List.flatMap_nil, hbyte]
    rfl
  rw [htext]
  simp only [unescape]
  rw [hexValue_hexDigit _ (by omega), hexValue_hexDigit _ (by omega),
    Nat.div_add_mod c.toNat 16, Char.ofNat_toNat]

theorem unescape_escape (c : Char) (r : List Char) :
    unescape ((escape c).toList ++ r) = some (c, r) := by
  unfold escape
  split
  · subst_vars; rfl
  split
  · subst_vars; rfl
  split
  · rename_i h
    rw [← Char.ofNat_toNat c, h]
    rfl
  split
  · rename_i h
    rw [← Char.ofNat_toNat c, h]
    rfl
  split
  · subst_vars; rfl
  split
  · subst_vars; rfl
  split
  · subst_vars; rfl
  split
  · rename_i h
    exact unescape_control h r
  · rename_i hquote hslash _ _ _ _ _ _
    rw [Char.toString, String.toList_singleton]
    exact unescape_plain hslash r

theorem escape_read {c d : Char} {r s : List Char}
    (h : (escape c).toList ++ r = (escape d).toList ++ s) : c = d ∧ r = s := by
  have hread := unescape_escape c r
  rw [h, unescape_escape] at hread
  cases hread
  exact ⟨rfl, rfl⟩

/-- No escape starts with the closing quote. -/
theorem escape_ne_quote (c : Char) (r s : List Char) : (escape c).toList ++ r ≠ '"' :: s := by
  intro h
  have hread := unescape_escape c r
  rw [h, unescape_plain (by decide)] at hread
  cases hread
  cases h

theorem escapes_read : ∀ {cs ds : List Char} {r s : List Char},
    (cs.flatMap fun c => (escape c).toList) ++ '"' :: r =
      (ds.flatMap fun c => (escape c).toList) ++ '"' :: s → cs = ds ∧ r = s
  | [], [], _, _, h => ⟨rfl, (List.cons.inj h).2⟩
  | [], d :: ds, _, _, h => by
    rw [List.flatMap_cons, List.append_assoc] at h
    exact absurd h.symm (escape_ne_quote d _ _)
  | c :: cs, [], _, _, h => by
    rw [List.flatMap_cons, List.append_assoc] at h
    exact absurd h (escape_ne_quote c _ _)
  | c :: cs, d :: ds, _, _, h => by
    simp only [List.flatMap_cons, List.append_assoc] at h
    obtain ⟨rfl, hrest⟩ := escape_read h
    obtain ⟨rfl, rfl⟩ := escapes_read hrest
    exact ⟨rfl, rfl⟩

theorem toList_quote (s : String) :
    (quote s).toList = '"' :: ((s.toList.flatMap fun c => (escape c).toList) ++ ['"']) := by
  simp only [quote, String.toList_append, String.toList_join, List.flatMap_map]
  rfl

theorem quoted_read {a b : String} {r s : List Char}
    (h : (quote a).toList ++ r = (quote b).toList ++ s) : a = b ∧ r = s := by
  simp only [toList_quote, List.cons_append, List.append_assoc, List.nil_append,
    List.cons.injEq, true_and] at h
  obtain ⟨hab, hrs⟩ := escapes_read h
  exact ⟨String.toList_inj.mp hab, hrs⟩

/-! ## Numbers -/

/-- No digit follows. -/
def Stops (r : List Char) : Prop := ∀ c ∈ r.head?, c.isDigit = false

theorem digits_read : ∀ {ds es : List Char} {r s : List Char}, (∀ c ∈ ds, c.isDigit = true) →
    (∀ c ∈ es, c.isDigit = true) → Stops r → Stops s → ds ++ r = es ++ s → ds = es ∧ r = s
  | [], [], _, _, _, _, _, _, h => ⟨rfl, h⟩
  | [], e :: es, _, _, _, he, hr, _, h => by
    subst h
    have := hr e rfl
    rw [he e List.mem_cons_self] at this
    cases this
  | d :: ds, [], _, _, hd, _, _, hs, h => by
    subst h
    have := hs d rfl
    rw [hd d List.mem_cons_self] at this
    cases this
  | d :: ds, e :: es, _, _, hd, he, hr, hs, h => by
    obtain ⟨rfl, hrest⟩ := List.cons.inj h
    obtain ⟨rfl, rfl⟩ := digits_read (fun c hc => hd c (List.mem_cons_of_mem _ hc))
      (fun c hc => he c (List.mem_cons_of_mem _ hc)) hr hs hrest
    exact ⟨rfl, rfl⟩

theorem natural_read {m n : Nat} {r s : List Char} (hr : Stops r) (hs : Stops s)
    (h : Nat.toDigits 10 m ++ r = Nat.toDigits 10 n ++ s) : m = n ∧ r = s := by
  have hdigits : ∀ k, ∀ c ∈ Nat.toDigits 10 k, c.isDigit = true := fun k c hc =>
    Nat.isDigit_of_mem_toDigits (by decide) (by decide) hc
  obtain ⟨hmn, hrs⟩ := digits_read (hdigits m) (hdigits n) hr hs h
  have hvalue := congrArg (fun l => Nat.ofDigitChars 10 l 0) hmn
  simp only [Nat.ofDigitChars_ten_toDigits] at hvalue
  exact ⟨hvalue, hrs⟩

theorem digits_ne_minus (n : Nat) (r s : List Char) : Nat.toDigits 10 n ++ r ≠ '-' :: s := by
  intro h
  cases hd : Nat.toDigits 10 n with
  | nil => exact Nat.toDigits_ne_nil hd
  | cons c cs =>
    have hdigit : c.isDigit = true :=
      Nat.isDigit_of_mem_toDigits (by decide) (by decide) (hd ▸ List.mem_cons_self)
    rw [hd] at h
    cases h
    cases hdigit

theorem toList_int (n : Int) : (toString n).toList =
    if 0 ≤ n then Nat.toDigits 10 n.toNat else '-' :: Nat.toDigits 10 (-n).toNat := by
  rw [Int.toString_eq_repr, Int.repr_eq_if]
  split
  · rw [Nat.toList_repr]
  · rw [String.toList_append, Nat.toList_repr]
    rfl

/-- Digits are ASCII. -/
theorem utf8Size_digit {n : Nat} {c : Char} (hc : c ∈ Nat.toDigits 10 n) : c.utf8Size = 1 := by
  have hdigit : c.isDigit = true := Nat.isDigit_of_mem_toDigits (by decide) (by decide) hc
  have := Char.isDigit_iff_toNat.mp hdigit
  have h9 : '9'.toNat = 57 := rfl
  rw [Char.utf8Size_eq_one_iff, UInt32.le_iff_toNat_le]
  change c.toNat ≤ 127
  omega

theorem size_nat (n : Nat) : (toString (n : Int)).utf8ByteSize = (Nat.toDigits 10 n).length := by
  have hlist := toList_int (n : Int)
  rw [if_pos (Int.natCast_nonneg _), Int.toNat_natCast] at hlist
  rw [← String.ofList_toList (s := toString (n : Int)), hlist,
    utf8ByteSize_ofList_ascii fun _ => utf8Size_digit]

theorem number_read {m n : Int} {r s : List Char} (hr : Stops r) (hs : Stops s)
    (h : (toString m).toList ++ r = (toString n).toList ++ s) : m = n ∧ r = s := by
  rw [toList_int, toList_int] at h
  split at h
  · split at h
    · obtain ⟨hmn, hrs⟩ := natural_read hr hs h
      exact ⟨by omega, hrs⟩
    · exact absurd h (digits_ne_minus _ _ _)
  · split at h
    · exact absurd h.symm (digits_ne_minus _ _ _)
    · obtain ⟨hmn, hrs⟩ := natural_read hr hs (List.cons.inj h).2
      exact ⟨by omega, hrs⟩

/-! ## Values -/

/-- The constructor of a value, and the one that the first character of a text belongs to. -/
def Value.kind : Value → Nat
  | .null => 0
  | .bool _ => 1
  | .number _ => 2
  | .string _ => 3
  | .array _ => 4
  | .object _ => 5

def leadKind (c : Char) : Nat :=
  if c = 'n' then 0
  else if c = 't' || c = 'f' then 1
  else if c.isDigit || c = '-' then 2
  else if c = '"' then 3
  else if c = '[' then 4
  else if c = '\x7b' then 5
  else 6

theorem leadKind_digit {c : Char} (h : c.isDigit = true) : leadKind c = 2 := by
  have hn : c ≠ 'n' := by rintro rfl; cases h
  have ht : c ≠ 't' := by rintro rfl; cases h
  have hf : c ≠ 'f' := by rintro rfl; cases h
  simp [leadKind, hn, ht, hf, h]

theorem number_lead (n : Int) : ∃ c rest, (toString n).toList = c :: rest ∧ leadKind c = 2 := by
  rw [toList_int]
  split
  · cases hd : Nat.toDigits 10 n.toNat with
    | nil => exact absurd hd Nat.toDigits_ne_nil
    | cons c cs =>
      exact ⟨c, cs, rfl, leadKind_digit
        (Nat.isDigit_of_mem_toDigits (by decide) (by decide) (hd ▸ List.mem_cons_self))⟩
  · exact ⟨'-', _, rfl, rfl⟩

theorem text_lead (v : Value) : ∃ c rest, (text v).toList = c :: rest ∧ leadKind c = v.kind := by
  cases v with
  | null => exact ⟨'n', _, rfl, rfl⟩
  | bool b => cases b with
    | false => exact ⟨'f', _, rfl, rfl⟩
    | true => exact ⟨'t', _, rfl, rfl⟩
  | number n => exact number_lead n
  | string a => exact ⟨'"', _, by rw [text, toList_quote], rfl⟩
  | array items =>
    exact ⟨'[', _, by simp only [text, String.toList_append]; rfl, rfl⟩
  | object fields =>
    exact ⟨'\x7b', _, by simp only [text, String.toList_append]; rfl, rfl⟩

/-- The items after the first, with their commas. -/
def more (ts : List String) : List Char := ts.flatMap fun t => ',' :: t.toList

theorem toList_intercalate_cons (t : String) (ts : List String) :
    (",".intercalate (t :: ts)).toList = t.toList ++ more ts := by
  induction ts generalizing t with
  | nil => simp [more]
  | cons u ts ih =>
    rw [String.intercalate_cons_cons, String.toList_append, String.toList_append, ih,
      List.append_assoc]
    rfl

theorem stops_more {close : Char} (hclose : close.isDigit = false) (ts : List String)
    (r : List Char) : Stops (more ts ++ close :: r) := by
  intro c hc
  cases ts with
  | nil =>
    cases hc
    exact hclose
  | cons t ts =>
    cases hc
    rfl

theorem toList_array (items : List Value) (r : List Char) : (text (.array items)).toList ++ r =
    '[' :: ((",".intercalate (texts items)).toList ++ ']' :: r) := by
  simp only [text, String.toList_append, List.append_assoc]
  rfl

theorem toList_object (fields : List (String × Value)) (r : List Char) :
    (text (.object fields)).toList ++ r =
      '\x7b' :: ((",".intercalate (fieldTexts fields)).toList ++ '\x7d' :: r) := by
  simp only [text, String.toList_append, List.append_assoc]
  rfl

/-- A field, up to its value. -/
theorem toList_field (k : String) (v : Value) (r : List Char) :
    (quote k ++ ":" ++ text v).toList ++ r = (quote k).toList ++ ':' :: ((text v).toList ++ r) := by
  simp only [String.toList_append, List.append_assoc]
  rfl

/-- Equal texts are of values with the same constructor. -/
theorem kind_of_text {v w : Value} {r s : List Char}
    (h : (text v).toList ++ r = (text w).toList ++ s) : v.kind = w.kind := by
  obtain ⟨c, cs, hv, hc⟩ := text_lead v
  obtain ⟨d, ds, hw, hd⟩ := text_lead w
  rw [hv, hw] at h
  rw [← hc, ← hd, (List.cons.inj h).1]

/-- No value starts like the end of an array. -/
theorem text_ne_bracket (v : Value) (r s : List Char) : (text v).toList ++ r ≠ ']' :: s := by
  intro h
  obtain ⟨c, cs, hv, hc⟩ := text_lead v
  rw [hv] at h
  cases h
  cases v <;> cases hc

mutual

theorem text_read : ∀ (v w : Value) {r s : List Char}, Stops r → Stops s →
    (text v).toList ++ r = (text w).toList ++ s → v = w ∧ r = s
  | .null, w, _, _, _, _, h => by
    cases w with
    | null => exact ⟨rfl, List.append_cancel_left h⟩
    | _ => cases kind_of_text h
  | .bool b, w, _, _, _, _, h => by
    cases w with
    | bool b' =>
      cases b <;> cases b'
      · exact ⟨rfl, List.append_cancel_left h⟩
      · cases h
      · cases h
      · exact ⟨rfl, List.append_cancel_left h⟩
    | _ => cases kind_of_text h
  | .number m, w, _, _, hr, hs, h => by
    cases w with
    | number n =>
      obtain ⟨rfl, rfl⟩ := number_read hr hs h
      exact ⟨rfl, rfl⟩
    | _ => cases kind_of_text h
  | .string a, w, _, _, _, _, h => by
    cases w with
    | string b =>
      obtain ⟨rfl, rfl⟩ := quoted_read h
      exact ⟨rfl, rfl⟩
    | _ => cases kind_of_text h
  | .array [], w, _, _, _, _, h => by
    cases w with
    | array ws =>
      rw [toList_array, toList_array] at h
      cases ws with
      | nil => exact ⟨rfl, (List.cons.inj (List.cons.inj h).2).2⟩
      | cons w ws =>
        rw [texts, texts, toList_intercalate_cons, List.append_assoc] at h
        exact absurd (List.cons.inj h).2.symm (text_ne_bracket w _ _)
    | _ => cases kind_of_text h
  | .array (v :: vs), w, _, _, _, _, h => by
    cases w with
    | array ws =>
      rw [toList_array, toList_array, texts, toList_intercalate_cons, List.append_assoc] at h
      cases ws with
      | nil => exact absurd (List.cons.inj h).2 (text_ne_bracket v _ _)
      | cons w ws =>
        rw [texts, toList_intercalate_cons, List.append_assoc] at h
        obtain ⟨rfl, hrest⟩ := text_read v w (stops_more rfl _ _) (stops_more rfl _ _)
          (List.cons.inj h).2
        obtain ⟨rfl, rfl⟩ := items_read vs ws hrest
        exact ⟨rfl, rfl⟩
    | _ => cases kind_of_text h
  | .object [], w, _, _, _, _, h => by
    cases w with
    | object gs =>
      rw [toList_object, toList_object] at h
      cases gs with
      | nil => exact ⟨rfl, (List.cons.inj (List.cons.inj h).2).2⟩
      | cons g gs =>
        rw [fieldTexts, fieldTexts, toList_intercalate_cons, List.append_assoc, toList_field,
          toList_quote] at h
        cases h
    | _ => cases kind_of_text h
  | .object ((k, v) :: fs), w, _, _, _, _, h => by
    cases w with
    | object gs =>
      rw [toList_object, toList_object, fieldTexts, toList_intercalate_cons, List.append_assoc,
        toList_field] at h
      cases gs with
      | nil =>
        rw [toList_quote] at h
        cases h
      | cons g gs =>
        rw [fieldTexts, toList_intercalate_cons, List.append_assoc, toList_field] at h
        obtain ⟨hk, hrest⟩ := quoted_read (List.cons.inj h).2
        obtain ⟨hv, hrest⟩ := text_read v g.2 (stops_more rfl _ _) (stops_more rfl _ _)
          (List.cons.inj hrest).2
        obtain ⟨rfl, rfl⟩ := fields_read fs gs hrest
        exact ⟨by rw [hk, hv], rfl⟩
    | _ => cases kind_of_text h

theorem items_read : ∀ (vs ws : List Value) {r s : List Char},
    more (texts vs) ++ ']' :: r = more (texts ws) ++ ']' :: s → vs = ws ∧ r = s
  | [], [], _, _, h => ⟨rfl, (List.cons.inj h).2⟩
  | [], _ :: _, _, _, h => by cases h
  | _ :: _, [], _, _, h => by cases h
  | v :: vs, w :: ws, _, _, h => by
    simp only [texts, more, List.flatMap_cons, List.append_assoc, List.cons_append] at h
    obtain ⟨rfl, hrest⟩ := text_read v w (stops_more rfl _ _) (stops_more rfl _ _)
      (List.cons.inj h).2
    obtain ⟨rfl, rfl⟩ := items_read vs ws hrest
    exact ⟨rfl, rfl⟩

theorem fields_read : ∀ (fs gs : List (String × Value)) {r s : List Char},
    more (fieldTexts fs) ++ '\x7d' :: r = more (fieldTexts gs) ++ '\x7d' :: s → fs = gs ∧ r = s
  | [], [], _, _, h => ⟨rfl, (List.cons.inj h).2⟩
  | [], _ :: _, _, _, h => by cases h
  | _ :: _, [], _, _, h => by cases h
  | (k, v) :: fs, g :: gs, _, _, h => by
    simp only [fieldTexts, more, List.flatMap_cons, List.append_assoc, List.cons_append] at h
    rw [toList_field, toList_field] at h
    obtain ⟨hk, hrest⟩ := quoted_read (List.cons.inj h).2
    obtain ⟨hv, hrest⟩ := text_read v g.2 (stops_more rfl _ _) (stops_more rfl _ _)
      (List.cons.inj hrest).2
    obtain ⟨rfl, rfl⟩ := fields_read fs gs hrest
    exact ⟨by rw [hk, hv], rfl⟩

end

theorem text_injective : Function.Injective text := by
  intro v w h
  have hstop : Stops [] := fun _ hc => by cases hc
  exact (text_read v w hstop hstop (by rw [h])).1

/-- **The bytes of a value determine it.** -/
theorem toVec_injective : Function.Injective toVec := by
  intro v w h
  unfold toVec at h
  exact text_injective (String.toByteArray_inj.mp (ByteArray.ext (Array.toList_inj.mp h)))

end LumaOS.Json
