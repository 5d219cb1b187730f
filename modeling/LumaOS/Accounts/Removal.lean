import LumaOS.Accounts.Identity
import LumaOS.Base.Loop

/-!
# Deletion, on records

What the loops of `Identity.lean` do to the records of a file: one row goes, and the lists of the
others lose the member's name.

* `deletionRows_eq_ok`, `removeAccount_eq_ok`, `removeGroups_eq_ok`: the functions, on records.
* `withoutMember`: what is left of a record that stays.
-/

namespace LumaOS.Accounts

open LumaOS.Base LumaOS.Text LumaOS.Json

/-- The name of a row. -/
def nameOf (r : Record) : List Char := r.headD []

/-- **The rows of an identity file.** -/
structure IsTable (count : Nat) (rs : List Record) : Prop where
  rows : ∀ r ∈ rs, IsRow r ∧ r.length = count ∧ nameOf r ≠ [] ∧ unclean (row r) = false
  names : (rs.map nameOf).Nodup
  nonempty : rs ≠ []

variable {input out : Bytes} {name : List Char} {count : Nat} {rs out' : List Record} {r : Record}

theorem head_eq_nameOf (h : IsRow r) : r.head? = some (nameOf r) := by
  obtain ⟨f, fs, rfl⟩ := List.exists_cons_of_ne_nil h.nonempty
  rfl

theorem getElem_zero (h : IsRow r) : r[0]? = some (nameOf r) := by
  rw [← List.head?_eq_getElem?, head_eq_nameOf h]

/-! ## The rows of a file -/

theorem dropLast_row (r : Record) : (row r).dropLast = joined r := List.dropLast_concat

/-- **Both loops over the rows** return the records, when these pass. -/
theorem rowsOf_eq_ok {bad : List Char → Bool} {invalid : String} :
    ∀ {rs : List Record} {names : List (List Char)} {out : List Record}, (∀ r ∈ rs, IsRow r) →
    (rowsOf count bad invalid names (rs.map row) = .ok out ↔ out = rs ∧
      (∀ r ∈ rs, r.length = count ∧ nameOf r ≠ [] ∧ nameOf r ∉ names ∧ bad (row r) = false) ∧
        (rs.map nameOf).Nodup)
  | [], names, out, _ => by
    rw [List.map_nil, rowsOf, pure_eq_ok]
    exact ⟨fun h => ⟨h.symm, fun _ hr => absurd hr List.not_mem_nil, List.nodup_nil⟩,
      fun h => h.1.symm⟩
  | r :: rs, names, out, h => by
    obtain ⟨hr, hrs⟩ := List.forall_mem_cons.mp h
    simp only [List.map_cons, rowsOf, dropLast_row, fields_joined hr, bind_eq_ok, refuseIf_eq_ok,
      expect_eq_ok, pure_eq_ok, exists_const, getElem_zero hr, Option.some.injEq, exists_eq_left',
      rowsOf_eq_ok hrs, bne_eq_false_iff_eq, Bool.or_eq_false_iff, List.isEmpty_eq_false_iff,
      List.contains_eq_mem, decide_eq_false_iff_not]
    rw [List.forall_mem_cons, List.nodup_cons]
    constructor
    · rintro ⟨hcount, ⟨⟨hname, hnew⟩, hbad⟩, _, ⟨rfl, hall, hnodup⟩, rfl⟩
      refine ⟨rfl, ⟨⟨hcount, hname, hnew, hbad⟩, fun q hq => ?_⟩, fun hmem => ?_, hnodup⟩
      · obtain ⟨hq1, hq2, hq3, hq4⟩ := hall q hq
        exact ⟨hq1, hq2, List.not_mem_of_not_mem_cons hq3, hq4⟩
      · obtain ⟨q, hq, heq⟩ := List.mem_map.mp hmem
        exact (hall q hq).2.2.1 (heq ▸ List.mem_cons_self)
    · rintro ⟨rfl, ⟨⟨hcount, hname, hnew, hbad⟩, hall⟩, hfresh, hnodup⟩
      refine ⟨hcount, ⟨⟨hname, hnew⟩, hbad⟩, rs, ⟨rfl, fun q hq => ?_, hnodup⟩, rfl⟩
      obtain ⟨hq1, hq2, hq3, hq4⟩ := hall q hq
      refine ⟨hq1, hq2, fun hmem => ?_, hq4⟩
      rcases List.mem_cons.mp hmem with heq | hmem
      · exact hfresh (heq ▸ List.mem_map_of_mem hq)
      · exact hq3 hmem

/-- A text that ends with a newline is one of records. -/
theorem exists_records {text : String} (h : endsWithNewline (bytesOf text.toList) = true) :
    ∃ rs, (∀ r ∈ rs, IsRow r) ∧ text.toList = render rs :=
  exists_render (.inr (endsWithNewline_bytesOf.mp h))

theorem render_ne_nil (h : rs ≠ []) : render rs ≠ [] := by
  intro hnil
  have hlast := getLast_render h
  rw [hnil] at hlast
  cases hlast

theorem bytesOf_ne_nil {cs : List Char} (h : cs ≠ []) : bytesOf cs ≠ [] := by
  obtain ⟨c, cs, rfl⟩ := List.exists_cons_of_ne_nil h
  intro hnil
  have hlength := congrArg List.length (List.append_eq_nil_iff.mp hnil).1
  rw [String.length_utf8EncodeChar] at hlength
  exact absurd hlength c.utf8Size_pos.ne'

/-- The records of a file that is written. -/
theorem utf8Text_render (rs : List Record) :
    utf8Text (bytesOf (render rs)) = some (String.ofList (render rs)) := utf8Text_bytesOf _

/-- **Deletion reads tables.** -/
theorem deletionRows_eq_ok {out : List Record} : deletionRows input count = .ok out ↔
    input = bytesOf (render out) ∧ IsTable count out ∧ input.length ≤ maxBlob := by
  simp only [deletionRows, bind_eq_ok, refuseIf_eq_ok, okOr_eq_ok, exists_const,
    Bool.or_eq_false_iff, List.isEmpty_eq_false_iff, decide_eq_false_iff_not, Nat.not_lt,
    Bool.not_eq_false', gt_iff_lt, utf8Text_eq_some]
  constructor
  · rintro ⟨⟨⟨hne, hsize⟩, hend⟩, text, rfl, hrows⟩
    obtain ⟨rs, hrs, htext⟩ := exists_records hend
    rw [htext, lines_render hrs] at hrows
    obtain ⟨rfl, hall, hnodup⟩ := (rowsOf_eq_ok hrs).mp hrows
    refine ⟨by rw [htext], ⟨fun r hr => ?_, hnodup, ?_⟩, hsize⟩
    · obtain ⟨hcount, hname, -, hbad⟩ := hall r hr
      exact ⟨hrs r hr, hcount, hname, hbad⟩
    · rintro rfl
      rw [htext] at hne
      exact hne rfl
  · rintro ⟨rfl, htable, hsize⟩
    have hrs : ∀ r ∈ out, IsRow r := fun r hr => (htable.rows r hr).1
    refine ⟨⟨⟨bytesOf_ne_nil (render_ne_nil htable.nonempty), hsize⟩, ?_⟩, String.ofList (render out),
      by rw [String.toList_ofList], ?_⟩
    · rw [endsWithNewline_bytesOf, getLast_render htable.nonempty]
    · rw [String.toList_ofList, lines_render hrs]
      refine (rowsOf_eq_ok hrs).mpr ⟨rfl, fun r hr => ?_, htable.names⟩
      obtain ⟨-, hcount, hname, hbad⟩ := htable.rows r hr
      exact ⟨hcount, hname, List.not_mem_nil, hbad⟩

/-! ## Buffers that are filled piece by piece -/

theorem putPieces_eq : ∀ {w : Bytes} {pieces : List Bytes},
    putPieces (w ++ zeros (pieceSizes pieces)) w.length pieces = .ok (w ++ pieces.flatten)
  | w, [] => by
    rw [putPieces, List.flatten_nil]
    rfl
  | w, piece :: rest => by
    have hsizes : pieceSizes (piece :: rest) = piece.length + pieceSizes rest := rfl
    have hnext := @putPieces_eq (w ++ piece) rest
    rw [List.length_append] at hnext
    rw [List.flatten_cons, ← List.append_assoc]
    exact bind_eq_ok.mpr ⟨_, copyAt_next rfl rfl hsizes, hnext⟩

theorem length_flatten (pieces : List Bytes) : pieces.flatten.length = pieceSizes pieces :=
  List.length_flatten

theorem pieced_eq (pieces : List Bytes) : pieced pieces = granted pieces.flatten :=
  filled (@putPieces_eq [] pieces) (length_flatten pieces).symm

theorem append_eq (before : Bytes) (pieces : List Bytes) :
    append before pieces = granted (before ++ pieces.flatten) := by
  refine filled ?_ (by rw [List.length_append, length_flatten])
  exact bind_eq_ok.mpr ⟨_, copyAt_first rfl rfl, putPieces_eq⟩

/-! ## Rows that are left out -/

/-- The name of a line, its end included. -/
theorem head_fields_row (h : IsRow r) (hlength : 2 ≤ r.length) :
    (fields (row r)).head? = some (nameOf r) := by
  match r, hlength with
  | f :: g :: fs, _ =>
    have hf : ':' ∉ f := (h.plain f List.mem_cons_self).1
    rw [row, joined_cons f (List.cons_ne_nil g fs), List.append_assoc, List.cons_append, fields,
      List.splitOn_append_cons_self_of_not_mem hf]
    rfl

/-- The records that stay. -/
def others (name : List Char) (rs : List Record) : List Record := rs.filter fun r => nameOf r != name

theorem bytesOf_render (rs : List Record) :
    bytesOf (render rs) = ((rs.map row).map bytesOf).flatten := by
  induction rs with
  | nil => rfl
  | cons r rs ih => rw [render_cons, bytesOf_append, ih, List.map_cons, List.map_cons, List.flatten_cons]

theorem retained_lines (h : ∀ r ∈ rs, IsRow r ∧ 2 ≤ r.length) :
    (lines (render rs)).filter (fun row => (fields row).head? != some name) =
      (others name rs).map row := by
  rw [lines_render fun r hr => (h r hr).1, List.filter_map, others]
  congr 1
  refine List.filter_congr fun r hr => ?_
  obtain ⟨hrow, hlength⟩ := h r hr
  rw [Function.comp, head_fields_row hrow hlength, bne, bne, Option.some_beq_some]

theorem one_named (h : IsTable count rs) :
    (rs.filter fun row => row.head? == some name).length = 1 ↔ name ∈ rs.map nameOf := by
  have hcount : (rs.filter fun row => row.head? == some name).length =
      (rs.map nameOf).count name := by
    rw [List.count, List.countP_map, List.countP_eq_length_filter]
    congr 1
    refine List.filter_congr fun r hr => ?_
    rw [Function.comp, head_eq_nameOf (h.rows r hr).1, Option.some_beq_some]
  rw [hcount]
  constructor
  · intro hone
    exact List.count_pos_iff.mp (by omega)
  · exact List.count_eq_one_of_mem h.names

/-- **Leaving out an account.** -/
theorem removeAccount_eq_ok (hcount : 2 ≤ count) : removeAccount input name count = .ok out ↔
    ∃ rs, deletionRows input count = .ok rs ∧ name ∈ rs.map nameOf ∧
      0 < out.length ∧ out.length ≤ maxBlob ∧ out = bytesOf (render (others name rs)) := by
  simp only [removeAccount, bind_eq_ok, refuseIf_eq_ok, okOr_eq_ok, exists_const,
    bne_eq_false_iff_eq]
  refine exists_congr fun rs => and_congr_right fun hrows => ?_
  obtain ⟨rfl, htable, -⟩ := deletionRows_eq_ok.mp hrows
  have hlong : ∀ r ∈ rs, IsRow r ∧ 2 ≤ r.length := fun r hr =>
    ⟨(htable.rows r hr).1, (htable.rows r hr).2.1 ▸ hcount⟩
  rw [one_named htable]
  refine and_congr_right fun _ => ?_
  rw [utf8Text_render]
  simp only [Option.some.injEq, exists_eq_left', String.toList_ofList, retained_lines hlong,
    pieced_eq, ← bytesOf_render, granted_eq_ok]
  constructor
  · rintro ⟨hpos, hle, rfl⟩
    exact ⟨hpos, hle, rfl⟩
  · rintro ⟨hpos, hle, rfl⟩
    exact ⟨hpos, hle, rfl⟩

/-! ## Lists of members -/

/-- The members in a list. -/
def members (value : List Char) : List (List Char) :=
  if value.isEmpty then [] else value.splitOn ','

/-- A list that passes. -/
def Listed (value : List Char) : Prop := (∀ m ∈ members value, m ≠ []) ∧ (members value).Nodup

theorem memberList_eq_ok {value : List Char} {ms : List (List Char)} :
    memberList value = .ok ms ↔ ms = members value ∧ Listed value := by
  unfold memberList Listed members
  split
  · rw [pure_eq_ok]
    simp [eq_comm]
  · simp only [bind_eq_ok, refuseIf_eq_ok, pure_eq_ok, exists_const, Bool.or_eq_false_iff,
      List.any_eq_false, Bool.not_eq_false', decide_eq_true_eq, List.isEmpty_iff]
    exact ⟨fun h => ⟨h.2.symm, h.1⟩, fun h => ⟨h.2, h.1.symm⟩⟩

/-- Members as a list. -/
def listed (ms : List (List Char)) : List Char := [','].intercalate ms

theorem intercalate_cons (c : Char) (x : List Char) (xs : List (List Char)) :
    [c].intercalate (x :: xs) = x ++ xs.flatMap (c :: ·) := by
  induction xs generalizing x with
  | nil => simp
  | cons y ys ih =>
    rw [List.intercalate_cons_cons, ih y, List.flatMap_cons]
    simp

theorem listed_members (value : List Char) : listed (members value) = value := by
  unfold listed members
  split
  · rename_i h
    rw [List.isEmpty_iff.mp h]
    rfl
  · exact List.intercalate_splitOn ','

/-- **What is kept of a list** is a list again. -/
theorem members_listed {ms : List (List Char)} (h : ∀ m ∈ ms, m ≠ [] ∧ ',' ∉ m) :
    members (listed ms) = ms := by
  cases ms with
  | nil => rfl
  | cons m ms =>
    have hne : (listed (m :: ms)).isEmpty = false := by
      rw [List.isEmpty_eq_false_iff, listed, intercalate_cons]
      exact List.append_ne_nil_of_left_ne_nil (h m List.mem_cons_self).1 _
    rw [members, hne, if_neg Bool.false_ne_true]
    exact List.splitOn_intercalate ',' (fun l hl => (h l hl).2) (List.cons_ne_nil m ms)

theorem memberPieces_false {ms : List (List Char)} : (memberPieces name false ms).flatten =
    bytesOf ((ms.filter (· != name)).flatMap (',' :: ·)) := by
  induction ms with
  | nil => rfl
  | cons m ms ih =>
    rw [memberPieces, List.filter_cons]
    split
    · have hcomma : bytesOf [','] = [44] := by decide
      rw [if_neg Bool.false_ne_true, List.flatMap_cons, bytesOf_append, ← ih, List.cons_append,
        List.nil_append, List.flatten_cons, List.flatten_cons, ← List.append_assoc,
        ← List.singleton_append (l := m), bytesOf_append, hcomma]
    · exact ih

theorem memberPieces_true {ms : List (List Char)} : (memberPieces name true ms).flatten =
    bytesOf (listed (ms.filter (· != name))) := by
  induction ms with
  | nil => rfl
  | cons m ms ih =>
    rw [memberPieces, List.filter_cons]
    split
    · rw [if_pos rfl, List.nil_append, List.flatten_cons, memberPieces_false, listed,
        intercalate_cons, bytesOf_append]
    · exact ih

/-! ## Rows that are written again -/

/-- A field without the account. -/
def withoutField (name : List Char) (lists : List Nat) (column : Nat) (value : List Char) :
    List Char :=
  if column ∈ lists then listed ((members value).filter (· != name)) else value

/-- **A row without the account** in its lists. -/
def withoutMember (name : List Char) (lists : List Nat) (r : Record) : Record :=
  r.mapIdx (withoutField name lists)

/-- The lists of a row, by their columns. -/
def rowLists (lists : List Nat) (r : Record) : List (Nat × List (List Char)) :=
  lists.map fun column => (column, members (r[column]?.getD []))

/-- The pieces of a row. -/
def rowPieces (name : List Char) (lists : List Nat) (r : Record) : List Bytes :=
  (r.mapIdx fun column value => columnPieces name (rowLists lists r) value column).flatten ++ [[10]]

theorem lookup_map {β : Type} (f : Nat → β) (column : Nat) : ∀ lists : List Nat,
    (lists.map fun c => (c, f c)).lookup column = if column ∈ lists then some (f column) else none
  | [] => rfl
  | c :: lists => by
    rw [List.map_cons, List.lookup_cons, lookup_map f column lists]
    by_cases hc : column = c
    · subst hc
      simp
    · have hfalse : (column == c) = false := beq_eq_false_iff_ne.mpr hc
      simp [hfalse, hc]

theorem columnPieces_flatten (lists : List Nat) {column : Nat} {value : List Char}
    (h : r[column]? = some value) : (columnPieces name (rowLists lists r) value column).flatten =
      bytesOf ((if 0 < column then [':'] else []) ++ withoutField name lists column value) := by
  have hcolon : (if column > 0 then [[58]] else [] : List Bytes).flatten =
      bytesOf (if 0 < column then [':'] else []) := by
    split <;> rfl
  rw [columnPieces, List.flatten_append, hcolon, bytesOf_append, rowLists, lookup_map, h,
    withoutField, Option.getD_some]
  congr 1
  split
  · rename_i ms heq
    split at heq
    · rename_i hmem
      obtain rfl := Option.some.inj heq
      rw [memberPieces_true, if_pos hmem]
    · cases heq
  · rename_i heq
    split at heq
    · cases heq
    · rename_i hmem
      rw [if_neg hmem]
      simp

theorem mapIdx_flatten {f : Nat → List Char → List Bytes} {g : Nat → List Char → List Char} :
    ∀ {vs : List (List Char)}, (∀ i v, vs[i]? = some v → (f i v).flatten = bytesOf (g i v)) →
      (vs.mapIdx f).flatten.flatten = bytesOf (vs.mapIdx g).flatten
  | [], _ => rfl
  | v :: vs, h => by
    have hrest := @mapIdx_flatten (fun i => f (i + 1)) (fun i => g (i + 1)) vs fun i w hw =>
      h (i + 1) w (by rwa [List.getElem?_cons_succ])
    rw [List.mapIdx_cons, List.mapIdx_cons, List.flatten_cons, List.flatten_append, hrest,
      h 0 v rfl, List.flatten_cons, bytesOf_append]

theorem mapIdx_joined (g : Nat → List Char → List Char) (h : r ≠ []) :
    (r.mapIdx fun i v => (if 0 < i then [':'] else []) ++ g i v).flatten = joined (r.mapIdx g) := by
  obtain ⟨v, vs, rfl⟩ := List.exists_cons_of_ne_nil h
  have hcolons : (vs.mapIdx fun i v => (if 0 < i + 1 then [':'] else []) ++ g (i + 1) v) =
      (vs.mapIdx fun i => g (i + 1)).map (':' :: ·) := by
    rw [List.mapIdx_eq_iff]
    intro i
    rw [List.getElem?_map, List.getElem?_mapIdx, Option.map_map]
    rfl
  rw [List.mapIdx_cons, List.mapIdx_cons, List.flatten_cons, hcolons, joined, intercalate_cons,
    List.flatMap_def]
  rfl

/-- **The pieces of a row** are the row without the account. -/
theorem rowPieces_flatten (lists : List Nat) (h : r ≠ []) :
    (rowPieces name lists r).flatten = bytesOf (row (withoutMember name lists r)) := by
  have hpieces := (@mapIdx_flatten _ _ r) fun i v hv => (@columnPieces_flatten name _) lists hv
  rw [rowPieces, List.flatten_append, hpieces, mapIdx_joined _ h, row, bytesOf_append]
  rfl

/-! ## The loop over the groups -/

/-- A row that `remove_groups` leaves out or keeps. -/
structure Removable (name : List Char) (secret : Bool) (lists : List Nat) (gid : Nat)
    (r : Record) : Prop where
  listed : ∀ column ∈ lists, ∃ value, r[column]? = some value ∧ Listed value
  own : nameOf r = name → ∀ column ∈ lists, ∀ m ∈ members (r[column]?.getD []), m = name
  id : secret = false → ∃ id, number r 2 = .ok id ∧ (id = gid ↔ nameOf r = name)

theorem rowLists_cons (c : Nat) (lists : List Nat) (r : Record) :
    rowLists (c :: lists) r = (c, members (r[c]?.getD [])) :: rowLists lists r := rfl

theorem membershipsOf_eq_ok : ∀ {lists : List Nat} {ms : List (Nat × List (List Char))},
    membershipsOf lists r = .ok ms ↔ ms = rowLists lists r ∧
      ∀ column ∈ lists, ∃ value, r[column]? = some value ∧ Listed value
  | [], ms => by
    rw [membershipsOf, List.mapM_nil, pure_eq_ok]
    exact ⟨fun h => ⟨h.symm, fun _ hc => absurd hc List.not_mem_nil⟩, fun h => h.1.symm⟩
  | c :: lists, ms => by
    have hrest := @membershipsOf_eq_ok lists
    simp only [membershipsOf] at hrest
    simp only [membershipsOf, List.mapM_cons, bind_eq_ok, pure_eq_ok, expect_eq_ok,
      memberList_eq_ok, hrest, List.forall_mem_cons]
    constructor
    · rintro ⟨_, ⟨value, hvalue, _, ⟨rfl, hlisted⟩, rfl⟩, _, ⟨rfl, hall⟩, rfl⟩
      refine ⟨?_, ⟨value, hvalue, hlisted⟩, hall⟩
      rw [rowLists_cons, hvalue, Option.getD_some]
    · rintro ⟨rfl, ⟨value, hvalue, hlisted⟩, hall⟩
      refine ⟨_, ⟨value, hvalue, _, ⟨rfl, hlisted⟩, rfl⟩, _, ⟨rfl, hall⟩, ?_⟩
      rw [rowLists_cons, hvalue, Option.getD_some]

theorem groupId_eq_ok {secret : Bool} {id : Option Nat} : groupId secret r = .ok id ↔
    (secret = true ∧ id = none) ∨ (secret = false ∧ ∃ gid, number r 2 = .ok gid ∧ id = some gid) := by
  cases secret with
  | true =>
    rw [groupId, if_pos rfl, pure_eq_ok]
    exact ⟨fun h => .inl ⟨rfl, h.symm⟩, fun h => by
      rcases h with ⟨-, rfl⟩ | ⟨h, -⟩
      · rfl
      · cases h⟩
  | false =>
    simp only [groupId, Bool.false_eq_true, if_false, bind_eq_ok, pure_eq_ok, false_and, false_or,
      true_and, eq_comm (b := id)]

theorem any_lists {lists : List Nat} : ((rowLists lists r).any fun list => list.2.any (· != name)) =
    false ↔ ∀ column ∈ lists, ∀ m ∈ members (r[column]?.getD []), m = name := by
  rw [rowLists, List.any_map, List.any_eq_false]
  simp only [Function.comp, Bool.not_eq_true, List.any_eq_false, bne_iff_ne, ne_eq, not_not]

/-- **One row**, its pieces appended when it is kept. -/
theorem removeRow_eq_ok {secret : Bool} {lists : List Nat} {gid : Nat} {s s' : Bool × List Bytes}
    (h : IsRow r) : removeRow name secret lists gid s r = .ok s' ↔
      Removable name secret lists gid r ∧
        s' = if nameOf r = name then (true, s.2) else (s.1, s.2 ++ rowPieces name lists r) := by
  simp only [removeRow, bind_eq_ok, membershipsOf_eq_ok, expect_eq_ok, getElem_zero h,
    Option.some.injEq, exists_eq_left', beq_iff_eq]
  by_cases hname : nameOf r = name
  · simp only [if_pos hname, bind_eq_ok, refuseIf_eq_ok, pure_eq_ok, exists_const, groupId_eq_ok]
    constructor
    · rintro ⟨_, ⟨rfl, hlisted⟩, hown, id, hid, hgid, rfl⟩
      refine ⟨⟨hlisted, fun _ => any_lists.mp hown, fun hsecret => ?_⟩, rfl⟩
      rcases hid with ⟨htrue, -⟩ | ⟨-, n, hn, rfl⟩
      · rw [hsecret] at htrue
        cases htrue
      · have hn' : n = gid := by simpa using hgid
        exact ⟨n, hn, fun _ => hname, fun _ => hn'⟩
    · rintro ⟨hremovable, rfl⟩
      refine ⟨_, ⟨rfl, hremovable.listed⟩, any_lists.mpr (hremovable.own hname), ?_⟩
      cases secret with
      | true => exact ⟨none, .inl ⟨rfl, rfl⟩, rfl, rfl⟩
      | false =>
        obtain ⟨n, hn, hgid⟩ := hremovable.id rfl
        exact ⟨some n, .inr ⟨rfl, n, hn, rfl⟩, by simpa using hgid.mpr hname, rfl⟩
  · simp only [if_neg hname, bind_eq_ok, refuseIf_eq_ok, pure_eq_ok, exists_const, groupId_eq_ok]
    constructor
    · rintro ⟨_, ⟨rfl, hlisted⟩, id, hid, hgid, rfl⟩
      refine ⟨⟨hlisted, fun he => absurd he hname, fun hsecret => ?_⟩, ?_⟩
      · rcases hid with ⟨htrue, -⟩ | ⟨-, n, hn, rfl⟩
        · rw [hsecret] at htrue
          cases htrue
        · have hn' : n ≠ gid := by simpa using hgid
          exact ⟨n, hn, fun he => absurd he hn', fun he => absurd he hname⟩
      · rw [rowPieces, ← List.append_assoc]
    · rintro ⟨hremovable, rfl⟩
      have hpieces : s.2 ++ rowPieces name lists r = s.2 ++ (r.mapIdx fun column value =>
          columnPieces name (rowLists lists r) value column).flatten ++ [[10]] := by
        rw [rowPieces, List.append_assoc]
      refine ⟨_, ⟨rfl, hremovable.listed⟩, ?_⟩
      rw [hpieces]
      cases secret with
      | true => exact ⟨none, .inl ⟨rfl, rfl⟩, rfl, rfl⟩
      | false =>
        obtain ⟨n, hn, hgid⟩ := hremovable.id rfl
        exact ⟨some n, .inr ⟨rfl, n, hn, rfl⟩, by simpa using fun he => hname (hgid.mp he), rfl⟩

/-- **The loop**, by induction on the rows. -/
theorem removeRows_eq_ok {secret : Bool} {lists : List Nat} {gid : Nat} :
    ∀ {rs : List Record} {s s' : Bool × List Bytes}, (∀ r ∈ rs, IsRow r) →
      (rs.foldlM (removeRow name secret lists gid) s = .ok s' ↔
        (∀ r ∈ rs, Removable name secret lists gid r) ∧
          s' = (s.1 || rs.any fun r => nameOf r == name,
            s.2 ++ (others name rs).flatMap (rowPieces name lists)))
  | [], s, s', _ => by
    rw [List.foldlM_nil, pure_eq_ok]
    simp [others, eq_comm]
  | r :: rs, s, s', h => by
    obtain ⟨hr, hrs⟩ := List.forall_mem_cons.mp h
    rw [List.foldlM_cons, bind_eq_ok, List.forall_mem_cons]
    simp only [removeRow_eq_ok hr, removeRows_eq_ok hrs]
    have hothers : others name (r :: rs) =
        if nameOf r = name then others name rs else r :: others name rs := by
      by_cases hname : nameOf r = name <;> simp [others, hname]
    have hstep : ((if nameOf r = name then ((true, s.2) : Bool × List Bytes)
        else (s.1, s.2 ++ rowPieces name lists r)).1 || rs.any fun r => nameOf r == name,
        (if nameOf r = name then ((true, s.2) : Bool × List Bytes)
          else (s.1, s.2 ++ rowPieces name lists r)).2 ++
            (others name rs).flatMap (rowPieces name lists)) =
        (s.1 || (r :: rs).any fun r => nameOf r == name,
          s.2 ++ (others name (r :: rs)).flatMap (rowPieces name lists)) := by
      rw [hothers]
      by_cases hname : nameOf r = name
      · simp [hname]
      · have hfalse : (nameOf r == name) = false := beq_eq_false_iff_ne.mpr hname
        simp [hname, hfalse]
    constructor
    · rintro ⟨_, ⟨hremovable, rfl⟩, hall, rfl⟩
      exact ⟨⟨hremovable, hall⟩, hstep⟩
    · rintro ⟨⟨hremovable, hall⟩, rfl⟩
      exact ⟨_, ⟨hremovable, rfl⟩, hall, hstep.symm⟩

theorem nameOf_withoutMember {lists : List Nat} (h : 0 ∉ lists) :
    nameOf (withoutMember name lists r) = nameOf r := by
  cases r with
  | nil => rfl
  | cons v vs =>
    rw [withoutMember, List.mapIdx_cons, nameOf, List.headD_cons, withoutField, if_neg h]
    rfl

theorem flatMap_rowPieces {lists : List Nat} (h : ∀ r ∈ rs, r ≠ []) :
    (rs.flatMap (rowPieces name lists)).flatten =
      bytesOf (render (rs.map (withoutMember name lists))) := by
  induction rs with
  | nil => rfl
  | cons r rs ih =>
    obtain ⟨hr, hrs⟩ := List.forall_mem_cons.mp h
    rw [List.flatMap_cons, List.flatten_append, rowPieces_flatten lists hr, ih hrs, List.map_cons,
      render_cons, bytesOf_append]

/-- The lists that a deletion reads. -/
def listsOf (secret : Bool) : List Nat := if secret then [2, 3] else [3]

/-- **Leaving out a group**, and its account in the others. -/
theorem removeGroups_eq_ok {secret : Bool} {gid : Nat} :
    removeGroups input name secret gid = .ok out ↔
      ∃ rs, deletionRows input 4 = .ok rs ∧ name ∈ rs.map nameOf ∧
        (∀ r ∈ rs, Removable name secret (listsOf secret) gid r) ∧
        0 < out.length ∧ out.length ≤ maxBlob ∧
          out = bytesOf (render ((others name rs).map (withoutMember name (listsOf secret)))) := by
  simp only [removeGroups, bind_eq_ok, refuseIf_eq_ok, exists_const]
  refine exists_congr fun rs => and_congr_right fun hrows => ?_
  obtain ⟨rfl, htable, -⟩ := deletionRows_eq_ok.mp hrows
  have hrs : ∀ r ∈ rs, IsRow r := fun r hr => (htable.rows r hr).1
  have hflat := @flatMap_rowPieces name (others name rs) (listsOf secret) fun r hr =>
    (hrs r (List.mem_of_mem_filter hr)).nonempty
  have hany : (rs.any fun r => nameOf r == name) = true ↔ name ∈ rs.map nameOf := by
    rw [List.any_eq_true, List.mem_map]
    simp only [beq_iff_eq]
  rw [listsOf] at hflat ⊢
  simp only [removeRows_eq_ok hrs, Bool.false_or, List.nil_append, and_assoc]
  constructor
  · rintro ⟨_, hall, rfl, hselected, hout⟩
    rw [pieced_eq, hflat] at hout
    obtain ⟨hpos, hle, rfl⟩ := granted_eq_ok.mp hout
    exact ⟨hany.mp (by simpa using hselected), hall, hpos, hle, rfl⟩
  · rintro ⟨hselected, hall, hpos, hle, rfl⟩
    refine ⟨_, hall, rfl, by simpa using hany.mpr hselected, ?_⟩
    rw [pieced_eq, hflat]
    exact granted_eq_ok.mpr ⟨hpos, hle, rfl⟩

end LumaOS.Accounts
