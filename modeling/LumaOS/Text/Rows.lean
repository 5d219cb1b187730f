import LumaOS.Json.Reader

/-!
# Files of colon-separated rows

The identity files hold one record in a line, its fields separated by colons. A record is a list of
fields (`IsRow`), `row` and `render` write records, and `lines` is `str::split_inclusive('\n')`.

* `lines_render`, `fields_row`: what was written is read back.
* `exists_render`: every text that ends with a newline is what some records are written as, and
  `render_inj`: only these.
-/

namespace LumaOS.Text

open LumaOS.Base LumaOS.Json

/-- `str::split_inclusive('\n')`. -/
def lines : List Char → List (List Char)
  | [] => []
  | c :: cs =>
    if c = '\n' then [c] :: lines cs
    else match lines cs with
      | [] => [[c]]
      | l :: ls => (c :: l) :: ls

/-- `row.trim_end_matches('\n')`. -/
def trimEnd (cs : List Char) : List Char := (cs.reverse.dropWhile (· == '\n')).reverse

/-- `row.split(':')`. -/
def fields (cs : List Char) : List (List Char) := cs.splitOn ':'

/-- A record in a file. -/
structure IsRow (fs : List (List Char)) : Prop where
  nonempty : fs ≠ []
  plain : ∀ f ∈ fs, ':' ∉ f ∧ '\n' ∉ f

/-- The fields in a line, without its end. -/
def joined (fs : List (List Char)) : List Char := [':'].intercalate fs

/-- The line of a record. -/
def row (fs : List (List Char)) : List Char := joined fs ++ ['\n']

/-- The text of records. -/
def render (rs : List (List (List Char))) : List Char := rs.flatMap row

variable {fs : List (List Char)} {rs rs' : List (List (List Char))} {l cs : List Char}

theorem render_append : render (rs ++ rs') = render rs ++ render rs' := List.flatMap_append

theorem render_cons : render (fs :: rs) = row fs ++ render rs := List.flatMap_cons

theorem joined_cons (f : List Char) (h : fs ≠ []) : joined (f :: fs) = f ++ ':' :: joined fs := by
  obtain ⟨g, fs, rfl⟩ := List.exists_cons_of_ne_nil h
  rw [joined, List.intercalate_cons_cons, List.append_assoc]
  rfl

theorem not_mem_joined {c : Char} (hc : c ≠ ':') (h : ∀ f ∈ fs, c ∉ f) : c ∉ joined fs := by
  induction fs with
  | nil => exact List.not_mem_nil
  | cons f fs ih =>
    obtain ⟨hf, hfs⟩ := List.forall_mem_cons.mp h
    by_cases hnil : fs = []
    · subst hnil
      simpa [joined] using hf
    · rw [joined_cons f hnil, List.mem_append, List.mem_cons]
      rintro (hmem | rfl | hmem)
      · exact hf hmem
      · exact hc rfl
      · exact ih hfs hmem

theorem IsRow.newline (h : IsRow fs) : '\n' ∉ joined fs :=
  not_mem_joined (by decide) fun f hf => (h.plain f hf).2

/-! ## Lines -/

theorem lines_append : ∀ {l : List Char}, '\n' ∉ l →
    lines (l ++ '\n' :: cs) = (l ++ ['\n']) :: lines cs
  | [], _ => by
    rw [List.nil_append, List.nil_append, lines, if_pos rfl]
  | c :: l, h => by
    have hc : c ≠ '\n' := fun he => List.ne_of_not_mem_cons h he.symm
    rw [List.cons_append, lines, if_neg hc, lines_append (List.not_mem_of_not_mem_cons h)]
    rfl

/-- **The lines of what was written** are the records. -/
theorem lines_render (h : ∀ r ∈ rs, IsRow r) : lines (render rs) = rs.map row := by
  induction rs with
  | nil => rfl
  | cons fs rs ih =>
    obtain ⟨hfs, hrs⟩ := List.forall_mem_cons.mp h
    rw [render_cons, row, List.append_assoc, List.singleton_append, lines_append hfs.newline,
      ih hrs]
    rfl

theorem trimEnd_append (h : '\n' ∉ l) : trimEnd (l ++ ['\n']) = l := by
  have hdrop : l.reverse.dropWhile (· == '\n') = l.reverse := by
    cases hl : l.reverse with
    | nil => rfl
    | cons c cs =>
      have hc : c ≠ '\n' := by
        rintro rfl
        exact h (List.mem_reverse.mp (hl ▸ List.mem_cons_self))
      rw [List.dropWhile_cons_of_neg (by simpa using hc)]
  rw [trimEnd, List.reverse_append, List.reverse_singleton, List.singleton_append,
    List.dropWhile_cons_of_pos (by decide), hdrop, List.reverse_reverse]

theorem fields_joined (h : IsRow fs) : fields (joined fs) = fs :=
  List.splitOn_intercalate ':' (fun f hf => (h.plain f hf).1) h.nonempty

theorem trimEnd_row (h : IsRow fs) : trimEnd (row fs) = joined fs := trimEnd_append h.newline

/-- **The fields of a line** are those of its record. -/
theorem fields_row (h : IsRow fs) : fields (trimEnd (row fs)) = fs := by
  rw [trimEnd_row h, fields_joined h]

theorem mem_modifyHead {f : List Char} {c : Char} (h : f ∈ fs.modifyHead (c :: ·)) :
    (∃ g ∈ fs, f = c :: g) ∨ f ∈ fs := by
  cases fs with
  | nil => exact absurd h List.not_mem_nil
  | cons g fs =>
    rcases List.mem_cons.mp h with rfl | h
    · exact .inl ⟨g, List.mem_cons_self, rfl⟩
    · exact .inr (List.mem_cons_of_mem g h)

/-- What stands between separators holds no separator. -/
theorem mem_splitOn {x d : Char} : ∀ {l f : List Char}, f ∈ l.splitOn x → d ∈ f → d ∈ l ∧ d ≠ x
  | [], f, h, hd => by
    rw [List.splitOn_nil, List.mem_singleton] at h
    subst h
    exact absurd hd List.not_mem_nil
  | c :: l, f, h, hd => by
    simp only [List.splitOn_cons_eq_if_modifyHead, beq_iff_eq] at h
    split at h
    · rcases List.mem_cons.mp h with rfl | h
      · exact absurd hd List.not_mem_nil
      · obtain ⟨hmem, hne⟩ := mem_splitOn h hd
        exact ⟨List.mem_cons_of_mem c hmem, hne⟩
    · rename_i hc
      rcases mem_modifyHead h with ⟨g, hg, rfl⟩ | h
      · rcases List.mem_cons.mp hd with rfl | hd
        · exact ⟨List.mem_cons_self, hc⟩
        · obtain ⟨hmem, hne⟩ := mem_splitOn hg hd
          exact ⟨List.mem_cons_of_mem c hmem, hne⟩
      · obtain ⟨hmem, hne⟩ := mem_splitOn h hd
        exact ⟨List.mem_cons_of_mem c hmem, hne⟩

/-- **Every line is one of a record.** -/
theorem isRow_fields (h : '\n' ∉ l) : IsRow (fields l) ∧ joined (fields l) = l :=
  ⟨⟨List.splitOn_ne_nil _ _, fun _ hf =>
    ⟨fun hmem => (mem_splitOn hf hmem).2 rfl, fun hmem => h (mem_splitOn hf hmem).1⟩⟩,
      List.intercalate_splitOn ':'⟩

/-- **Every text that ends with a newline** is one that records are written as. -/
theorem exists_render : ∀ {cs : List Char}, (cs = [] ∨ cs.getLast? = some '\n') →
    ∃ rs, (∀ r ∈ rs, IsRow r) ∧ cs = render rs
  | [], _ => ⟨[], fun _ h => absurd h List.not_mem_nil, rfl⟩
  | c :: cs, h => by
    have hlast : (c :: cs).getLast? = some '\n' := h.resolve_left (List.cons_ne_nil c cs)
    have hrest : cs = [] ∨ cs.getLast? = some '\n' := by
      cases cs with
      | nil => exact .inl rfl
      | cons d cs => exact .inr (by rwa [List.getLast?_cons_cons] at hlast)
    obtain ⟨rs, hrs, rfl⟩ := exists_render hrest
    by_cases hc : c = '\n'
    · subst hc
      refine ⟨[[]] :: rs, List.forall_mem_cons.mpr ⟨⟨by simp, by simp⟩, hrs⟩, ?_⟩
      rw [render_cons]
      rfl
    · cases rs with
      | nil => exact absurd (Option.some.inj hlast) hc
      | cons fs rs =>
        -- the character belongs to the first line
        obtain ⟨hfs, hrs⟩ := List.forall_mem_cons.mp hrs
        have hline : '\n' ∉ c :: joined fs := by
          rw [List.mem_cons]
          rintro (he | hmem)
          · exact hc he.symm
          · exact hfs.newline hmem
        obtain ⟨hrow, hjoin⟩ := isRow_fields hline
        refine ⟨fields (c :: joined fs) :: rs, List.forall_mem_cons.mpr ⟨hrow, hrs⟩, ?_⟩
        rw [render_cons, render_cons, row, row, hjoin]
        rfl

theorem getLast_render (h : rs ≠ []) : (render rs).getLast? = some '\n' := by
  rcases List.eq_nil_or_concat rs with rfl | ⟨rs, r, rfl⟩
  · exact absurd rfl h
  · rw [List.concat_eq_append, render_append, render_cons, row, show render [] = [] from rfl,
      List.append_nil, ← List.append_assoc, List.getLast?_concat]

/-- **The records of a text** are read back from its lines. -/
theorem map_fields_lines (h : ∀ r ∈ rs, IsRow r) :
    (lines (render rs)).map (fun l => fields (trimEnd l)) = rs := by
  rw [lines_render h, List.map_map]
  exact (List.map_congr_left fun r hr => fields_row (h r hr)).trans (List.map_id rs)

/-- **A text is written by one list of records only.** -/
theorem render_inj (h : ∀ r ∈ rs, IsRow r) (h' : ∀ r ∈ rs', IsRow r)
    (heq : render rs = render rs') : rs = rs' := by
  rw [← map_fields_lines h, heq, map_fields_lines h']

/-! ## Bytes -/

/-- `str::from_utf8` accepts what characters are encoded as. -/
theorem utf8Text_eq_some {bytes : Bytes} {s : String} :
    utf8Text bytes = some s ↔ bytes = bytesOf s.toList := by
  constructor
  · intro h
    obtain ⟨cs, hcs, rfl⟩ := Option.map_eq_some_iff.mp h
    have hsome : bytes.toByteArray.utf8Decode?.isSome = true := by
      rw [hcs]
      rfl
    have hencode := @ByteArray.utf8Encode_get_utf8Decode? bytes.toByteArray hsome
    rw [Option.get_of_eq_some hsome hcs] at hencode
    rw [String.toList_ofList, bytesOf, ← List.toList_data_toByteArray (l := bytes), ← hencode]
    exact List.toList_data_toByteArray
  · rintro rfl
    rw [utf8Text_bytesOf, String.ofList_toList]

/-- `bytes.ends_with(b"\n")`. -/
def endsWithNewline (bytes : Bytes) : Bool := bytes.getLast? == some 10

theorem getLast_bytesOf_snoc (c : Char) (cs : List Char) :
    (bytesOf (cs ++ [c])).getLast? = some 10 ↔ c = '\n' := by
  rw [bytesOf_append]
  by_cases hc : c.toNat < 128
  · rw [show bytesOf [c] = [UInt8.ofNat c.toNat] by rw [bytesOf_cons hc]; rfl,
      List.getLast?_concat, Option.some.injEq]
    constructor
    · intro h
      have hn : (UInt8.ofNat c.toNat).toNat = 10 := by rw [h]; rfl
      rw [UInt8.toNat_ofNat', Nat.mod_eq_of_lt (by omega)] at hn
      exact Char.toNat_inj.mp hn
    · rintro rfl
      rfl
  · have hhigh : ∀ b ∈ bytesOf [c], 128 ≤ b.toNat := by
      rw [show bytesOf [c] = String.utf8EncodeChar c by simp [bytesOf]]
      exact utf8EncodeChar_high (by omega)
    have hne : bytesOf [c] ≠ [] := by
      rw [show bytesOf [c] = String.utf8EncodeChar c by simp [bytesOf]]
      exact List.ne_nil_of_length_pos (by rw [String.length_utf8EncodeChar]; exact c.utf8Size_pos)
    rw [List.getLast?_append_of_ne_nil _ hne]
    constructor
    · intro h
      have := hhigh 10 (List.mem_of_getLast? h)
      exact absurd this (by decide)
    · rintro rfl
      exact absurd (by decide) hc

/-- **Bytes that end with a newline** encode a text that does. -/
theorem endsWithNewline_bytesOf : endsWithNewline (bytesOf cs) = true ↔ cs.getLast? = some '\n' := by
  rw [endsWithNewline, beq_iff_eq]
  rcases List.eq_nil_or_concat cs with rfl | ⟨cs, c, rfl⟩
  · simp [bytesOf]
  · rw [List.concat_eq_append, getLast_bytesOf_snoc, List.getLast?_concat, Option.some.injEq]

end LumaOS.Text
