import LumaOS.Accounts.Removal
import Mathlib.Data.List.Flatten

/-!
# Deletion undoes creation

* `transform_removes`: what a deletion leaves of the four files, and whose group it takes.
* `deletion_inverts`: behind a creation it restores the files, up to the lists that already named
  the account. `dangling_member` shows files with such a list.
-/

namespace LumaOS.Accounts

open LumaOS.Base LumaOS.Text LumaOS.Json

variable {input out : Bytes} {name : List Char} {count : Nat} {rs : List Record} {r : Record}
  {lists : List Nat}

variable {before after : Files} {file : File} {rows : File → List Record} {new : Record}

/-! ## A row without the account is a part of the row -/

theorem listed_eq (ms : List (List Char)) : listed ms = (ms.flatMap (',' :: ·)).tail := by
  cases ms with
  | nil => rfl
  | cons m ms => rw [listed, intercalate_cons, List.flatMap_cons, List.cons_append, List.tail_cons]

theorem joined_eq (fs : Record) : joined fs = (fs.flatMap (':' :: ·)).tail := by
  cases fs with
  | nil => rfl
  | cons f fs => rw [joined, intercalate_cons, List.flatMap_cons, List.cons_append, List.tail_cons]

theorem withoutField_sublist (column : Nat) (value : List Char) :
    (withoutField name lists column value).Sublist value := by
  unfold withoutField
  split
  · conv_rhs => rw [← listed_members value]
    rw [listed_eq, listed_eq]
    exact (List.filter_sublist.flatMap _).tail
  · exact List.Sublist.refl value

theorem mapIdx_sublist {g : Nat → List Char → List Char} (h : ∀ i v, (g i v).Sublist v) :
    ∀ vs : List (List Char), ((vs.mapIdx g).flatMap (':' :: ·)).Sublist (vs.flatMap (':' :: ·)) := by
  intro vs
  induction vs generalizing g with
  | nil => exact List.Sublist.refl _
  | cons v vs ih =>
    rw [List.mapIdx_cons, List.flatMap_cons, List.flatMap_cons]
    exact ((h 0 v).cons_cons ':').append (ih fun i => h (i + 1))

theorem row_sublist (r : Record) : (row (withoutMember name lists r)).Sublist (row r) := by
  rw [row, row, joined_eq, joined_eq]
  exact (mapIdx_sublist withoutField_sublist r).tail.append (List.Sublist.refl _)

theorem render_sublist (rs : List Record) :
    (bytesOf (render (rs.map (withoutMember name lists)))).Sublist (bytesOf (render rs)) := by
  refine List.Sublist.flatMap ?_ _
  rw [render, render, List.flatMap_map]
  exact List.Sublist.flatMap_right rs fun r _ => row_sublist r

theorem isRow_withoutMember (h : IsRow r) : IsRow (withoutMember name lists r) := by
  refine ⟨List.mapIdx_ne_nil_iff.mpr h.nonempty, fun f hf => ?_⟩
  obtain ⟨i, hi, rfl⟩ := List.mem_mapIdx.mp hf
  obtain ⟨hcolon, hline⟩ := h.plain r[i] (List.getElem_mem hi)
  have hsub := ((@withoutField_sublist name lists) i r[i]).subset
  exact ⟨fun hmem => hcolon (hsub hmem), fun hmem => hline (hsub hmem)⟩

theorem comma_of_mem_members {value m : List Char} (h : m ∈ members value) : ',' ∉ m := by
  unfold members at h
  split at h
  · exact absurd h List.not_mem_nil
  · exact fun hmem => (mem_splitOn h hmem).2 rfl

/-- A field of a row, before and after. -/
def FieldKept (name : List Char) (listed : Prop) (before after : List Char) : Prop :=
  (listed → members after = (members before).filter (· != name)) ∧ (¬ listed → after = before)

theorem fieldKept (column : Nat) {value : List Char} (h : column ∈ lists → Listed value) :
    FieldKept name (column ∈ lists) value (withoutField name lists column value) := by
  refine ⟨fun hmem => ?_, fun hmem => by rw [withoutField, if_neg hmem]⟩
  rw [withoutField, if_pos hmem, members_listed]
  intro m hm
  have hm := List.mem_of_mem_filter hm
  exact ⟨(h hmem).1 m hm, comma_of_mem_members hm⟩

/-- **What a deletion leaves of a file**: the other rows at their places, their fields kept but for
the lists, and no row and no list with the name. -/
def Removed (name : List Char) (file : File) (before after : Bytes) : Prop :=
  ∃ rs rs' : List Record, before = bytesOf (render rs) ∧ after = bytesOf (render rs') ∧
    IsTable file.columns rs ∧
    List.Forall₂ (fun r r' => r'.length = r.length ∧
      ∀ (column : Nat) value, r[column]? = some value → ∃ value', r'[column]? = some value' ∧
        FieldKept name (column ∈ file.lists) value value') (others name rs) rs' ∧
    ∀ r' ∈ rs', IsRow r' ∧ nameOf r' ≠ name ∧
      ∀ column ∈ file.lists, ∀ value, r'[column]? = some value → name ∉ members value

theorem removed (file : File) {rs : List Record} (htable : IsTable file.columns rs)
    (hlisted : ∀ r ∈ rs, ∀ column ∈ file.lists, ∀ value, r[column]? = some value →
      Listed value) : Removed name file (bytesOf (render rs))
        (bytesOf (render ((others name rs).map (withoutMember name file.lists)))) := by
  have hzero : 0 ∉ file.lists := by cases file <;> decide
  have hfield : ∀ r ∈ others name rs, ∀ (column : Nat) value, r[column]? = some value →
      FieldKept name (column ∈ file.lists) value (withoutField name file.lists column value) :=
    fun r hr column value hvalue => fieldKept column fun hmem =>
      hlisted r (List.mem_of_mem_filter hr) column hmem value hvalue
  refine ⟨rs, _, rfl, rfl, htable, ?_, ?_⟩
  · refine List.forall₂_map_right_iff.mpr (List.forall₂_same.mpr fun r hr => ?_)
    refine ⟨List.length_mapIdx, fun column value hvalue => ⟨_, ?_, hfield r hr _ _ hvalue⟩⟩
    rw [withoutMember, List.getElem?_mapIdx, hvalue]
    rfl
  · intro r' hr'
    obtain ⟨r, hr, rfl⟩ := List.mem_map.mp hr'
    obtain ⟨hmem, hne⟩ := List.mem_filter.mp hr
    refine ⟨isRow_withoutMember (htable.rows r hmem).1, ?_, fun column hcolumn value hvalue => ?_⟩
    · rw [nameOf_withoutMember hzero]
      exact bne_iff_ne.mp hne
    · rw [withoutMember, List.getElem?_mapIdx] at hvalue
      obtain ⟨old, hold, rfl⟩ := Option.map_eq_some_iff.mp hvalue
      rw [(hfield r hr column old hold).1 hcolumn, List.mem_filter]
      exact fun h => absurd h.2 (by simp)

theorem withoutMember_nil (name : List Char) : withoutMember name [] = id := by
  funext r
  rw [withoutMember, List.mapIdx_eq_iff]
  intro i
  have hid : withoutField name [] i = id := by
    funext value
    rw [withoutField, if_neg List.not_mem_nil]
    rfl
  rw [hid, Option.map_id]
  rfl

/-! ## Deletion -/

theorem number_eq_ok {column n : Nat} : number r column = .ok n ↔
    ∃ value, r[column]? = some value ∧ parseU32 (String.ofList value) = some n := by
  simp only [number, bind_eq_ok, expect_eq_ok, okOr_eq_ok]

theorem sharedGroup_eq_false {gid : Nat} (h : ∀ r ∈ rs, IsRow r) :
    sharedGroup name gid rs = false ↔ ∀ r ∈ rs, nameOf r ≠ name → number r 3 ≠ .ok gid := by
  unfold sharedGroup
  rw [List.any_eq_false]
  refine forall₂_congr fun r hr => ?_
  rw [head_eq_nameOf (h r hr), Ne, Ne, number_eq_ok]
  simp [Option.any_eq_true, not_and]

/-- **A deletion that succeeds**, by what it reads. -/
theorem transform_eq_ok {record : Principal} :
    transform before record = .ok after ↔
      ∃ passwd target, deletionRows before.passwd 7 = .ok passwd ∧ accountIds [] passwd = .ok () ∧
        (passwd.find? fun row => row.head? == some record.login) = some target ∧
        number target 3 = .ok record.uid ∧ sharedGroup record.login record.uid passwd = false ∧
        removeAccount before.passwd record.login 7 = .ok after.passwd ∧
        removeAccount before.shadow record.login 9 = .ok after.shadow ∧
        removeGroups before.group record.login false record.uid = .ok after.group ∧
        removeGroups before.gshadow record.login true record.uid = .ok after.gshadow := by
  simp only [transform, bind_eq_ok, okOr_eq_ok, refuseIf_eq_ok, pure_eq_ok, exists_const,
    Bool.or_eq_false_iff, bne_eq_false_iff_eq]
  constructor
  · rintro ⟨passwd, hrows, _, hids, target, hfind, gid, hgid, ⟨rfl, hshared⟩, p, hp, s, hs, g, hg, q,
      hq, rfl⟩
    exact ⟨passwd, target, hrows, hids, hfind, hgid, hshared, hp, hs, hg, hq⟩
  · rintro ⟨passwd, target, hrows, hids, hfind, hgid, hshared, hp, hs, hg, hq⟩
    exact ⟨passwd, hrows, (), hids, target, hfind, _, hgid, ⟨rfl, hshared⟩, _, hp, _, hs, _, hg, _, hq,
      rfl⟩

theorem accountIds_gid : ∀ {rs : List Record} {uids : List Nat} {u : Unit},
    accountIds uids rs = .ok u → ∀ r ∈ rs, ∃ gid, number r 3 = .ok gid
  | [], _, _, _ => fun _ hr => absurd hr List.not_mem_nil
  | r :: rs, uids, u, h => by
    simp only [accountIds, bind_eq_ok, refuseIf_eq_ok, exists_const] at h
    obtain ⟨_, -, -, gid, hgid, hrest⟩ := h
    exact List.forall_mem_cons.mpr ⟨⟨gid, hgid⟩, accountIds_gid hrest⟩

theorem removed_account (hlists : file.lists = []) (hcount : 2 ≤ file.columns)
    (h : removeAccount input name file.columns = .ok out) : Removed name file input out := by
  obtain ⟨rs, hrows, -, -, -, rfl⟩ := (removeAccount_eq_ok hcount).mp h
  obtain ⟨rfl, htable, -⟩ := deletionRows_eq_ok.mp hrows
  have hremoved := @removed name file rs htable (by simp [hlists])
  rwa [hlists, withoutMember_nil, List.map_id] at hremoved

theorem removed_groups {secret : Bool} {gid : Nat} (hlists : file.lists = listsOf secret)
    (hcount : file.columns = 4) (h : removeGroups input name secret gid = .ok out) :
    Removed name file input out := by
  obtain ⟨rs, hrows, -, hall, -, -, rfl⟩ := removeGroups_eq_ok.mp h
  obtain ⟨rfl, htable, -⟩ := deletionRows_eq_ok.mp hrows
  rw [← hlists]
  refine removed file (hcount ▸ htable) fun r hr column hcolumn value hvalue => ?_
  obtain ⟨_, hsome, hlisted⟩ := (hall r hr).listed column (hlists ▸ hcolumn)
  rwa [Option.some.inj (hvalue.symm.trans hsome)]

/-- **No other account loses its group.** -/
def KeepsGroups (name : List Char) (before : Files) : Prop :=
  ∃ passwd group : List Record, before.passwd = bytesOf (render passwd) ∧
    before.group = bytesOf (render group) ∧ IsTable 7 passwd ∧ IsTable 4 group ∧
    ∀ r ∈ passwd, nameOf r ≠ name → ∃ gid, number r 3 = .ok gid ∧
      ∀ g ∈ group, number g 2 = .ok gid → nameOf g ≠ name

/-- **What a deletion leaves**, and whose group it takes. -/
theorem transform_removes {record : Principal} (h : transform before record = .ok after) :
    (∀ file : File, Removed record.login file (before.get file) (after.get file)) ∧
      KeepsGroups record.login before := by
  obtain ⟨passwd, target, hrows, hids, -, -, hshared, hp, hs, hg, hq⟩ := transform_eq_ok.mp h
  constructor
  · intro file
    cases file with
    | passwd => exact removed_account rfl (by decide) hp
    | shadow => exact removed_account rfl (by decide) hs
    | group => exact removed_groups rfl rfl hg
    | gshadow => exact removed_groups rfl rfl hq
  · obtain ⟨group, hgroup, -, hall, -⟩ := removeGroups_eq_ok.mp hg
    obtain ⟨hpasswd, htable, -⟩ := deletionRows_eq_ok.mp hrows
    obtain ⟨hgroup, hgtable, -⟩ := deletionRows_eq_ok.mp hgroup
    refine ⟨passwd, group, hpasswd, hgroup, htable, hgtable, fun r hr hne => ?_⟩
    obtain ⟨gid, hgid⟩ := accountIds_gid hids r hr
    refine ⟨gid, hgid, fun g hmem hnumber hname => ?_⟩
    obtain ⟨id, hid, hiff⟩ := (hall g hmem).id rfl
    obtain rfl := Except.ok.inj (hid.symm.trans hnumber)
    rw [hiff.mpr hname] at hgid
    exact (sharedGroup_eq_false fun r hr => (htable.rows r hr).1).mp hshared r hr hne hgid

/-! ## What vacancy has seen -/

theorem creationRows_eq {rs' : List Record} (hrows : deletionRows input count = .ok rs)
    (h : creationRows input count = .ok rs') : rs' = rs := by
  obtain ⟨rfl, htable, -⟩ := deletionRows_eq_ok.mp hrows
  simp only [creationRows, bind_eq_ok, okOr_eq_ok, utf8Text_render, Option.some.injEq,
    exists_eq_left', String.toList_ofList] at h
  obtain ⟨_, -, h⟩ := h
  have hrs : ∀ r ∈ rs, IsRow r := fun r hr => (htable.rows r hr).1
  rw [lines_render hrs] at h
  exact ((rowsOf_eq_ok hrs).mp h).1

/-- What is known of a row that was seen. -/
structure Seen (file : File) (name : List Char) (reserved : List Nat) (r : Record) : Prop where
  fresh : nameOf r ≠ name
  primary : file = .passwd → ∃ gid ∈ reserved, number r 3 = .ok gid
  own : file = .group → ∃ gid ∈ reserved, number r 2 = .ok gid

theorem Seen.mono {a b : List Nat} (h : Seen file name a r) (hab : a ⊆ b) :
    Seen file name b r := by
  refine ⟨h.fresh, fun hfile => ?_, fun hfile => ?_⟩
  · obtain ⟨gid, hmem, hgid⟩ := h.primary hfile
    exact ⟨gid, hab hmem, hgid⟩
  · obtain ⟨gid, hmem, hgid⟩ := h.own hfile
    exact ⟨gid, hab hmem, hgid⟩

/-- **One row is reserved**, and nothing is released. -/
theorem takeRow_step {t t' : Taken} (hr : IsRow r) (h : takeRow file name t r = .ok t') :
    t.reserved ⊆ t'.reserved ∧ (t.passwdIds ⊆ t.reserved → t'.passwdIds ⊆ t'.reserved) ∧
      Seen file name t'.reserved r := by
  simp only [takeRow, bind_eq_ok, expect_eq_ok, getElem_zero hr, Option.some.injEq,
    exists_eq_left', refuseIf_eq_ok, beq_eq_false_iff_ne, exists_const] at h
  obtain ⟨hfresh, h⟩ := h
  cases file with
  | passwd =>
    simp only [bind_eq_ok, pure_eq_ok] at h
    obtain ⟨uid, -, _, -, gid, hgid, rfl⟩ := h
    refine ⟨fun x hx => by simp [hx], fun hsub x hx => ?_, hfresh, fun _ => ⟨gid, by simp, hgid⟩,
      fun hfile => by cases hfile⟩
    rcases List.mem_cons.mp hx with rfl | hx
    · simp
    · simp [hsub hx]
  | group =>
    simp only [bind_eq_ok, pure_eq_ok] at h
    obtain ⟨gid, hgid, rfl⟩ := h
    exact ⟨fun x hx => by simp [hx], fun hsub x hx => by simp [hsub hx], hfresh,
      fun hfile => (by cases hfile), fun _ => ⟨gid, by simp, hgid⟩⟩
  | shadow | gshadow =>
    obtain rfl := Except.ok.inj h
    exact ⟨fun _ hx => hx, id, hfresh, fun hfile => (by cases hfile),
      fun hfile => by cases hfile⟩

theorem takeRows_run : ∀ {rs : List Record} {t t' : Taken}, (∀ r ∈ rs, IsRow r) →
    rs.foldlM (takeRow file name) t = .ok t' →
    t.reserved ⊆ t'.reserved ∧ (t.passwdIds ⊆ t.reserved → t'.passwdIds ⊆ t'.reserved) ∧
      ∀ r ∈ rs, Seen file name t'.reserved r
  | [], t, t', _, h => by
    rw [List.foldlM_nil, pure_eq_ok] at h
    subst h
    exact ⟨fun _ hx => hx, id, fun _ hr => absurd hr List.not_mem_nil⟩
  | r :: rs, t, t', hrs, h => by
    obtain ⟨hr, hrs⟩ := List.forall_mem_cons.mp hrs
    rw [List.foldlM_cons, bind_eq_ok] at h
    obtain ⟨t1, hstep, hrest⟩ := h
    obtain ⟨hsub, hids, hseen⟩ := takeRow_step hr hstep
    obtain ⟨hsub', hids', hall⟩ := takeRows_run hrs hrest
    exact ⟨fun _ hx => hsub' (hsub hx), fun h => hids' (hids h),
      List.forall_mem_cons.mpr ⟨hseen.mono hsub', hall⟩⟩

/-- Accounts that were seen pass the check of a deletion, with a new one behind them. -/
theorem accountIds_append {uid gid : Nat} (hnew : number new 2 = .ok uid)
    (hgid : number new 3 = .ok gid) : ∀ {rs : List Record} {t t' : Taken}, (∀ r ∈ rs, IsRow r) →
      rs.foldlM (takeRow .passwd name) t = .ok t' → uid ∉ t'.passwdIds →
        accountIds t.passwdIds (rs ++ [new]) = .ok ()
  | [], t, t', _, h, huid => by
    rw [List.foldlM_nil, pure_eq_ok] at h
    subst h
    have hfresh : t.passwdIds.contains uid = false := by simpa using huid
    exact bind_eq_ok.mpr ⟨uid, hnew, bind_eq_ok.mpr ⟨(), refuseIf_eq_ok.mpr hfresh,
      bind_eq_ok.mpr ⟨gid, hgid, rfl⟩⟩⟩
  | r :: rs, t, t', hrs, h, huid => by
    obtain ⟨hr, hrs⟩ := List.forall_mem_cons.mp hrs
    rw [List.foldlM_cons, bind_eq_ok] at h
    obtain ⟨t1, hstep, hrest⟩ := h
    have hids := accountIds_append hnew hgid hrs hrest huid
    simp only [takeRow, bind_eq_ok, refuseIf_eq_ok, exists_const, pure_eq_ok] at hstep
    obtain ⟨_, -, -, id, hid, hfresh, primary, hprimary, rfl⟩ := hstep
    exact bind_eq_ok.mpr ⟨id, hid, bind_eq_ok.mpr ⟨(), refuseIf_eq_ok.mpr hfresh,
      bind_eq_ok.mpr ⟨primary, hprimary, hids⟩⟩⟩

theorem takeFile_eq_ok {t t' : Taken} (hrows : deletionRows (before.get file) file.columns = .ok rs)
    (h : takeFile before name t file = .ok t') :
    (∀ r ∈ rs, IsRow r) ∧ rs.foldlM (takeRow file name) t = .ok t' := by
  obtain ⟨-, htable, -⟩ := deletionRows_eq_ok.mp hrows
  obtain ⟨rs', hrows', hfold⟩ := bind_eq_ok.mp h
  obtain rfl := creationRows_eq hrows hrows'
  exact ⟨fun r hr => (htable.rows r hr).1, hfold⟩

/-- **A vacant uid**: every row was seen, and the uid is in none of them. -/
theorem vacancy_seen {registry : List Principal} {uid : Nat}
    (hrows : ∀ file, deletionRows (before.get file) file.columns = .ok (rows file))
    (h : vacancy before registry name = .ok uid) :
    ∃ reserved, uid ∉ reserved ∧ uid < 2 ^ 32 ∧ (∀ file, ∀ r ∈ rows file, Seen file name reserved r) ∧
      ∀ new gid, number new 2 = .ok uid → number new 3 = .ok gid →
        accountIds [] (rows .passwd ++ [new]) = .ok () := by
  simp only [vacancy, bind_eq_ok, List.foldlM_cons, List.foldlM_nil, pure_eq_ok, okOr_eq_ok] at h
  obtain ⟨reserved, -, t, ⟨t1, h1, t2, h2, t3, h3, t4, h4, rfl⟩, hfind⟩ := h
  obtain ⟨hrows1, hfold1⟩ := takeFile_eq_ok (hrows .passwd) h1
  obtain ⟨hrows2, hfold2⟩ := takeFile_eq_ok (hrows .shadow) h2
  obtain ⟨hrows3, hfold3⟩ := takeFile_eq_ok (hrows .group) h3
  obtain ⟨hrows4, hfold4⟩ := takeFile_eq_ok (hrows .gshadow) h4
  obtain ⟨-, hids1, hseen1⟩ := takeRows_run hrows1 hfold1
  obtain ⟨hsub2, -, hseen2⟩ := takeRows_run hrows2 hfold2
  obtain ⟨hsub3, -, hseen3⟩ := takeRows_run hrows3 hfold3
  obtain ⟨hsub4, -, hseen4⟩ := takeRows_run hrows4 hfold4
  have hvacant : uid ∉ t4.reserved := by simpa using List.find?_some hfind
  have hrange : uid < 2 ^ 32 := by
    obtain ⟨-, hlt⟩ := List.mem_range'_1.mp (List.mem_of_find?_eq_some hfind)
    omega
  refine ⟨t4.reserved, hvacant, hrange, fun file r hr => ?_, fun new gid hnew hgid => ?_⟩
  · cases file with
    | passwd => exact ((hseen1 r hr).mono fun x hx => hsub4 (hsub3 (hsub2 hx)))
    | shadow => exact (hseen2 r hr).mono fun x hx => hsub4 (hsub3 hx)
    | group => exact (hseen3 r hr).mono hsub4
    | gshadow => exact hseen4 r hr
  · refine accountIds_append hnew hgid hrows1 hfold1 fun hmem => hvacant ?_
    exact hsub4 (hsub3 (hsub2 (hids1 (List.nil_subset _) hmem)))

/-! ## The new rows -/

/-- A character that is no separator. -/
def Plain (c : Char) : Prop := 32 ≤ c.toNat ∧ c.toNat < 128 ∧ c ≠ ':'

instance decidablePlain (c : Char) : Decidable (Plain c) := inferInstanceAs (Decidable (_ ∧ _))

/-- A field of plain characters. -/
def PlainText (f : List Char) : Prop := ∀ c ∈ f, Plain c

instance decidablePlainText (f : List Char) : Decidable (PlainText f) :=
  inferInstanceAs (Decidable (∀ c ∈ f, Plain c))

theorem unclean_plain {cs : List Char} (h : ∀ c ∈ cs, Plain c ∨ c = ':' ∨ c = '\n') :
    unclean cs = false := by
  unfold unclean
  rw [List.any_eq_false]
  intro b hb
  obtain ⟨c, hc, hbyte⟩ := List.mem_flatMap.mp hb
  have hrange : c.toNat < 128 ∧ c.toNat ≠ 0 ∧ c.toNat ≠ 13 := by
    rcases h c hc with ⟨hlow, hhigh, -⟩ | rfl | rfl
    · omega
    · decide
    · decide
  rw [utf8EncodeChar_ascii hrange.1, List.mem_singleton] at hbyte
  have hn : b.toNat = c.toNat := by
    rw [hbyte, UInt8.toNat_ofNat', Nat.mod_eq_of_lt (by omega)]
  simp only [Bool.or_eq_true, beq_iff_eq, not_or]
  constructor
  · rintro rfl
    exact hrange.2.1 hn.symm
  · rintro rfl
    exact hrange.2.2 hn.symm

theorem mem_row {c : Char} (h : c ∈ row r) : (∃ f ∈ r, c ∈ f) ∨ c = ':' ∨ c = '\n' := by
  rw [row, List.mem_append, List.mem_singleton, joined_eq] at h
  rcases h with h | rfl
  · obtain ⟨f, hf, hc⟩ := List.mem_flatMap.mp (List.mem_of_mem_tail h)
    rcases List.mem_cons.mp hc with rfl | hc
    · exact .inr (.inl rfl)
    · exact .inl ⟨f, hf, hc⟩
  · exact .inr (.inr rfl)

/-- **A row of plain fields** is one of a table. -/
theorem plain_row (hne : r ≠ []) (h : ∀ f ∈ r, PlainText f) :
    IsRow r ∧ unclean (row r) = false := by
  refine ⟨⟨hne, fun f hf => ⟨fun hmem => (h f hf _ hmem).2.2 rfl, fun hmem => ?_⟩⟩,
    unclean_plain fun c hc => ?_⟩
  · exact absurd (h f hf _ hmem).1 (by decide)
  · rcases mem_row hc with ⟨f, hf, hc⟩ | hc
    · exact .inl (h f hf c hc)
    · exact .inr hc

theorem plain_login (h : login name = true) : name ≠ [] ∧ PlainText name := by
  simp only [login, Bool.and_eq_true, Bool.not_eq_true', List.isEmpty_eq_false_iff,
    List.all_eq_true, Bool.or_eq_true, Char.isLower, Char.isDigit, decide_eq_true_eq,
    beq_iff_eq] at h
  obtain ⟨⟨⟨hne, -⟩, -⟩, hall⟩ := h
  refine ⟨hne, fun c hc => ?_⟩
  rcases hall c hc with ((⟨ha, hb⟩ | ⟨ha, hb⟩) | rfl) | rfl
  · refine ⟨Nat.le_trans (by decide) ha, Nat.lt_of_le_of_lt hb (by decide), ?_⟩
    rintro rfl
    exact absurd ha (by decide)
  · refine ⟨Nat.le_trans (by decide) ha, Nat.lt_of_le_of_lt hb (by decide), ?_⟩
    rintro rfl
    exact absurd hb (by decide)
  · decide
  · decide

theorem plain_printed (uid : Nat) : PlainText (printed uid) := by
  intro c hc
  have hdigit := Nat.isDigit_of_mem_toDigits (by decide) (by decide) hc
  simp only [Char.isDigit, Bool.and_eq_true, decide_eq_true_eq] at hdigit
  refine ⟨Nat.le_trans (by decide) hdigit.1, Nat.lt_of_le_of_lt hdigit.2 (by decide), ?_⟩
  rintro rfl
  exact absurd hdigit.2 (by decide)

/-- The row that a creation appends. -/
def newRow (name : List Char) (uid : Nat) (crypt : List Char) : File → Record
  | .passwd => [name, ['x'], printed uid, printed uid, "Luma local user".toList,
      "/home/".toList ++ name, "/bin/bash".toList]
  | .shadow => [name, '!' :: crypt, ['0'], ['0'], "99999".toList, ['7'], [], [], []]
  | .group => [name, ['x'], printed uid, []]
  | .gshadow => [name, ['!'], [], []]

theorem row_newRow (name : List Char) (uid : Nat) (crypt : List Char) :
    row (newRow name uid crypt .passwd) = passwdText name uid ∧
    row (newRow name uid crypt .shadow) =
      name ++ ":!".toList ++ (crypt ++ ":0:0:99999:7:::\n".toList) ∧
    row (newRow name uid crypt .group) = groupText name uid ∧
    row (newRow name uid crypt .gshadow) = gshadowText name := by
  simp [row, joined, newRow, List.intercalate, passwdText, groupText, gshadowText]

theorem newRow_plain {uid : Nat} {crypt : List Char} (file : File) (hlogin : login name = true)
    (hcrypt : PlainText crypt) : ∀ f ∈ newRow name uid crypt file, PlainText f := by
  have hname := (plain_login hlogin).2
  have huid := plain_printed uid
  have hhome : PlainText ("/home/".toList ++ name) := fun c hc =>
    (List.mem_append.mp hc).elim ((by decide : PlainText "/home/".toList) c) (hname c)
  have hlocked : PlainText ('!' :: crypt) := List.forall_mem_cons.mpr ⟨by decide, hcrypt⟩
  cases file <;> simp only [newRow, List.mem_cons, List.not_mem_nil, or_false, forall_eq_or_imp,
    forall_eq]
  · exact ⟨hname, by decide, huid, huid, by decide, hhome, by decide⟩
  · exact ⟨hname, hlocked, by decide, by decide, by decide, by decide, by decide, by decide,
      by decide⟩
  · exact ⟨hname, by decide, huid, by decide⟩
  · exact ⟨hname, by decide, by decide, by decide⟩

/-- **A creation** appends one row to each file. -/
theorem replacements_eq_ok {intent : Intent} {crypt : Bytes}
    (h : replacements before intent crypt = .ok after) :
    ∃ cs, PlainText cs ∧
      vacancy before intent.registryBefore intent.principal.login = .ok intent.principal.uid ∧
      ∀ file, after.get file = before.get file ++
          bytesOf (row (newRow intent.principal.login intent.principal.uid cs file)) ∧
        (after.get file).length ≤ maxBlob := by
  simp only [replacements, bind_eq_ok, refuseIf_eq_ok, pure_eq_ok, exists_const, append_eq,
    granted_eq_ok, bne_eq_false_iff_eq] at h
  obtain ⟨_, hvalid, uid, hvacant, rfl, p, ⟨-, hp, rfl⟩, g, ⟨-, hg, rfl⟩, q, ⟨-, hq, rfl⟩, s,
    ⟨-, hs, rfl⟩, rfl⟩ := h
  obtain ⟨cs, rfl, hcs, -⟩ := validateHash_text hvalid
  have hplain : PlainText ('$' :: cs) := by
    intro c hc
    have hrange : c = '$' ∨ hashChar c = true := by
      rcases List.mem_cons.mp hc with rfl | hc
      · exact .inl rfl
      · exact hcs c hc
    obtain ⟨hlow, hhigh, hcolon⟩ := hashChar_range hrange
    exact ⟨by omega, hhigh, hcolon⟩
  obtain ⟨hpasswd, hshadow, hgroup, hgshadow⟩ :=
    row_newRow intent.principal.login intent.principal.uid ('$' :: cs)
  refine ⟨'$' :: cs, hplain, hvacant, fun file => ?_⟩
  cases file with
  | passwd => exact ⟨by rw [hpasswd]; simp [Files.get], hp⟩
  | shadow =>
    refine ⟨?_, hs⟩
    rw [hshadow, bytesOf_append (intent.principal.login ++ _), bytesOf_append ('$' :: cs)]
    simp only [Files.get, List.flatten_cons, List.flatten_nil, List.append_nil]
  | group => exact ⟨by rw [hgroup]; simp [Files.get], hg⟩
  | gshadow => exact ⟨by rw [hgshadow]; simp [Files.get], hq⟩

/-! ## Creation and deletion -/

/-- The row of a creation stands behind the others. -/
theorem isTable_append (h : IsTable file.columns rs) (hrow : IsRow new)
    (hlength : new.length = file.columns) (hname : nameOf new = name) (hne : name ≠ [])
    (hclean : unclean (row new) = false) (hfresh : ∀ r ∈ rs, nameOf r ≠ name) :
    IsTable file.columns (rs ++ [new]) := by
  refine ⟨List.forall_mem_append.mpr ⟨h.rows, List.forall_mem_singleton.mpr
    ⟨hrow, hlength, hname ▸ hne, hclean⟩⟩, ?_, List.append_ne_nil_of_left_ne_nil h.nonempty _⟩
  rw [List.map_append, List.nodup_append]
  refine ⟨h.names, List.nodup_singleton _, fun n hn m hm => ?_⟩
  obtain ⟨r, hr, rfl⟩ := List.mem_map.mp hn
  rw [List.map_cons, List.map_nil, List.mem_singleton] at hm
  rw [hm, hname]
  exact hfresh r hr

theorem others_append (hname : nameOf new = name) (hfresh : ∀ r ∈ rs, nameOf r ≠ name) :
    others name (rs ++ [new]) = rs := by
  have hall : rs.filter (fun r => nameOf r != name) = rs :=
    List.filter_eq_self.mpr fun r hr => bne_iff_ne.mpr (hfresh r hr)
  rw [others, List.filter_append, hall]
  simp [hname]

/-- Four files that a deletion reads. -/
def Grammatical (before : Files) (rows : File → List Record) : Prop :=
  ∀ file : File, deletionRows (before.get file) file.columns = .ok (rows file) ∧
    ∀ r ∈ rows file, ∀ column ∈ file.lists, ∃ value ms, r[column]? = some value ∧
      memberList value = .ok ms

theorem find_append (hrow : IsRow new) (hname : nameOf new = name)
    (h : ∀ r ∈ rs, IsRow r ∧ nameOf r ≠ name) :
    ((rs ++ [new]).find? fun row => row.head? == some name) = some new := by
  have hnone : (rs.find? fun row => row.head? == some name) = none := by
    refine List.find?_eq_none.mpr fun r hr => ?_
    obtain ⟨hr, hne⟩ := h r hr
    rw [head_eq_nameOf hr, Option.some_beq_some, beq_iff_eq]
    exact hne
  rw [List.find?_append, hnone, Option.none_or, List.find?_cons, head_eq_nameOf hrow, hname]
  simp

theorem Grammatical.table (h : Grammatical before rows) (file : File) :
    before.get file = bytesOf (render (rows file)) ∧
      IsTable file.columns (rows file) ∧ (before.get file).length ≤ maxBlob :=
  deletionRows_eq_ok.mp (h file).1

/-- What is kept of a file fits into a buffer. -/
theorem Grammatical.kept (h : Grammatical before rows) (name : List Char) (file : File) :
    0 < (bytesOf (render ((rows file).map (withoutMember name file.lists)))).length ∧
      (bytesOf (render ((rows file).map (withoutMember name file.lists)))).length ≤ maxBlob := by
  obtain ⟨hbytes, htable, hsize⟩ := h.table file
  rw [hbytes] at hsize
  refine ⟨List.length_pos_iff.mpr (bytesOf_ne_nil (render_ne_nil ?_)),
    Nat.le_trans (render_sublist _).length_le hsize⟩
  exact fun hnil => htable.nonempty (List.map_eq_nil_iff.mp hnil)

/-- The rows that a creation left, as a deletion reads them. -/
structure Created (before : Files) (name : List Char) (uid : Nat) (rows : File → List Record)
    (new : File → Record) (after : Files) : Prop where
  grammar : Grammatical before rows
  reads : ∀ file : File, deletionRows (after.get file) file.columns =
    .ok (rows file ++ [new file])
  row : ∀ file, IsRow (new file)
  named : ∀ file, nameOf (new file) = name
  fresh : ∀ file, ∀ r ∈ rows file, nameOf r ≠ name
  ids : accountIds [] (rows .passwd ++ [new .passwd]) = .ok ()
  primary : number (new .passwd) 3 = .ok uid
  others : ∀ r ∈ rows .passwd, number r 3 ≠ .ok uid
  own : number (new .group) 2 = .ok uid
  groups : ∀ r ∈ rows .group, ∃ gid, number r 2 = .ok gid ∧ gid ≠ uid
  empty : ∀ file : File, ∀ column ∈ file.lists, (new file)[column]? = some []

/-- **A creation** leaves such rows. -/
theorem created {intent : Intent} {crypt : Bytes} (hgrammar : Grammatical before rows)
    (h : replacements before intent crypt = .ok after) :
    ∃ new, Created before intent.principal.login intent.principal.uid rows new after := by
  obtain ⟨cs, hcs, hvacant, hafter⟩ := replacements_eq_ok h
  obtain ⟨reserved, huid, hlt, hseen, hids⟩ :=
    vacancy_seen (fun file => (hgrammar file).1) hvacant
  have hplain := fun file => (@newRow_plain _ intent.principal.uid) file intent.checked hcs
  have hparse : parseU32 (String.ofList (printed intent.principal.uid)) =
      some intent.principal.uid := parseU32_toDigits hlt
  have hrow : ∀ file, IsRow (newRow intent.principal.login intent.principal.uid cs file) ∧
      unclean (row (newRow intent.principal.login intent.principal.uid cs file)) = false :=
    fun file => plain_row (by cases file <;> exact List.cons_ne_nil _ _) (hplain file)
  have hprimary : number (newRow intent.principal.login intent.principal.uid cs .passwd) 3 =
      .ok intent.principal.uid := number_eq_ok.mpr ⟨_, rfl, hparse⟩
  have hnamed : ∀ file, nameOf (newRow intent.principal.login intent.principal.uid cs file) =
      intent.principal.login := fun file => by cases file <;> rfl
  refine ⟨newRow intent.principal.login intent.principal.uid cs, hgrammar, fun file => ?_,
    fun file => (hrow file).1, hnamed, fun file r hr => (hseen file r hr).fresh,
    hids _ _ (number_eq_ok.mpr ⟨_, rfl, hparse⟩) hprimary, hprimary, fun r hr hgid => ?_,
    number_eq_ok.mpr ⟨_, rfl, hparse⟩, fun r hr => ?_, fun file column hcolumn => ?_⟩
  · obtain ⟨hbytes, htable, -⟩ := hgrammar.table file
    obtain ⟨hnew, hsize⟩ := hafter file
    refine deletionRows_eq_ok.mpr ⟨?_, ?_, hsize⟩
    · rw [hnew, hbytes, render_append, bytesOf_append, render_cons]
      simp [render]
    · exact isTable_append htable (hrow file).1 (by cases file <;> rfl) (hnamed file)
        (plain_login intent.checked).1 (hrow file).2 fun r hr => (hseen file r hr).fresh
  · obtain ⟨gid, hmem, hnumber⟩ := (hseen .passwd r hr).primary rfl
    obtain rfl := Except.ok.inj (hgid.symm.trans hnumber)
    exact huid hmem
  · obtain ⟨gid, hmem, hnumber⟩ := (hseen .group r hr).own rfl
    exact ⟨gid, hnumber, fun heq => huid (heq ▸ hmem)⟩
  · cases file with
    | passwd | shadow => exact absurd hcolumn List.not_mem_nil
    | group =>
      obtain rfl := List.mem_singleton.mp hcolumn
      rfl
    | gshadow =>
      rcases List.mem_cons.mp hcolumn with rfl | hcolumn
      · rfl
      · obtain rfl := List.mem_singleton.mp hcolumn
        rfl

namespace Created

variable {before after : Files} {uid : Nat} {rows : File → List Record} {new : File → Record}

theorem others_rows (h : Created before name uid rows new after) (file : File) :
    Accounts.others name (rows file ++ [new file]) = rows file :=
  others_append (h.named file) (h.fresh file)

theorem mem_names (h : Created before name uid rows new after) (file : File) :
    name ∈ (rows file ++ [new file]).map nameOf :=
  List.mem_map.mpr ⟨new file, by simp, h.named file⟩

theorem removes_account (h : Created before name uid rows new after) (hlists : file.lists = [])
    (hcount : 2 ≤ file.columns) :
    removeAccount (after.get file) name file.columns = .ok
      (bytesOf (render ((rows file).map (withoutMember name file.lists)))) := by
  obtain ⟨hpos, hsize⟩ := h.grammar.kept name file
  refine (removeAccount_eq_ok hcount).mpr
    ⟨_, h.reads file, h.mem_names file, hpos, hsize, ?_⟩
  rw [h.others_rows file, hlists, withoutMember_nil, List.map_id]

theorem removes_groups (h : Created before name uid rows new after) {secret : Bool}
    (hlists : file.lists = listsOf secret) (hcount : file.columns = 4)
    (hgroup : secret = false → file = .group) :
    removeGroups (after.get file) name secret uid = .ok
      (bytesOf (render ((rows file).map (withoutMember name file.lists)))) := by
  obtain ⟨hpos, hsize⟩ := h.grammar.kept name file
  have hreads := h.reads file
  rw [hcount] at hreads
  refine removeGroups_eq_ok.mpr ⟨_, hreads, h.mem_names file,
    List.forall_mem_append.mpr ⟨fun r hr => ?_, List.forall_mem_singleton.mpr ?_⟩, hpos, hsize, ?_⟩
  · refine ⟨fun column hcolumn => ?_, fun hname => absurd hname (h.fresh file r hr),
      fun hsecret => ?_⟩
    · obtain ⟨value, ms, hvalue, hms⟩ := (h.grammar file).2 r hr column (hlists ▸ hcolumn)
      exact ⟨value, hvalue, (memberList_eq_ok.mp hms).2⟩
    · obtain rfl := hgroup hsecret
      obtain ⟨gid, hgid, hne⟩ := h.groups r hr
      exact ⟨gid, hgid, fun heq => absurd heq hne, fun heq => absurd heq (h.fresh .group r hr)⟩
  · refine ⟨fun column hcolumn => ?_, fun _ column hcolumn m hm => ?_, fun hsecret => ?_⟩
    · exact ⟨[], h.empty file column (hlists ▸ hcolumn), by simp [Listed, members]⟩
    · rw [h.empty file column (hlists ▸ hcolumn)] at hm
      exact absurd hm List.not_mem_nil
    · obtain rfl := hgroup hsecret
      exact ⟨uid, h.own, fun _ => h.named .group, fun _ => rfl⟩
  · rw [h.others_rows file, hlists]

/-- **Deleting what was created** restores the files, up to the lists with the name. -/
theorem transform (h : Created before record.login record.uid rows new after) :
    ∃ restored, Accounts.transform after record = .ok restored ∧ ∀ file : File,
      restored.get file =
        bytesOf (render ((rows file).map (withoutMember record.login file.lists))) := by
  refine ⟨⟨_, _, _, _⟩, transform_eq_ok.mpr ⟨_, _, h.reads .passwd, h.ids,
    find_append (h.row .passwd) (h.named .passwd) fun r hr => ⟨?_, h.fresh .passwd r hr⟩, h.primary,
    ?_, @Created.removes_account _ .passwd _ _ _ _ _ h rfl (by decide),
    @Created.removes_account _ .shadow _ _ _ _ _ h rfl (by decide),
    @Created.removes_groups _ .group _ _ _ _ _ h _ rfl rfl fun _ => rfl,
    @Created.removes_groups _ .gshadow _ _ _ _ _ h _ rfl rfl fun hsecret => (by cases hsecret)⟩,
    fun file => by cases file <;> rfl⟩
  · exact ((h.grammar.table .passwd).2.1.rows r hr).1
  · obtain ⟨-, htable, -⟩ := deletionRows_eq_ok.mp (h.reads .passwd)
    rw [sharedGroup_eq_false fun r hr => (htable.rows r hr).1]
    intro r hr hne
    rcases List.mem_append.mp hr with hr | hr
    · exact h.others r hr
    · obtain rfl := List.mem_singleton.mp hr
      exact absurd (h.named .passwd) hne

end Created

/-- No list names the account. -/
def Unnamed (name : List Char) (rows : File → List Record) : Prop :=
  ∀ file : File, ∀ r ∈ rows file, ∀ column ∈ file.lists, ∀ value, r[column]? = some value →
    name ∉ members value

/-- A row that does not list the account is kept as it is. -/
theorem withoutMember_eq (h : ∀ column ∈ lists, ∀ value, r[column]? = some value →
    name ∉ members value) : withoutMember name lists r = r := by
  rw [withoutMember, List.mapIdx_eq_iff]
  intro i
  cases hvalue : r[i]? with
  | none => rfl
  | some value =>
    rw [Option.map_some, withoutField]
    split
    · rename_i hmem
      have hall : (members value).filter (· != name) = members value := by
        refine List.filter_eq_self.mpr fun m hm => bne_iff_ne.mpr ?_
        rintro rfl
        exact h i hmem value hvalue hm
      rw [hall, listed_members]
    · rfl

theorem Unnamed.render_eq (h : Unnamed name rows) (file : File) :
    (rows file).map (withoutMember name file.lists) = rows file :=
  (List.map_congr_left fun r hr => withoutMember_eq (h file r hr)).trans (List.map_id _)

theorem files_ext {a b : Files} (h : ∀ file, a.get file = b.get file) : a = b := by
  obtain ⟨p, s, g, q⟩ := a
  obtain ⟨p', s', g', q'⟩ := b
  obtain rfl : p = p' := h .passwd
  obtain rfl : s = s' := h .shadow
  obtain rfl : g = g' := h .group
  obtain rfl : q = q' := h .gshadow
  rfl

/-- **Deletion undoes creation**: it restores the files, where no list named the account before,
and else without the name in the lists. Of all files on which it succeeds it leaves the other rows
as they were, and the groups of the other accounts. -/
theorem deletion_inverts :
    (∀ before rows intent crypt after, Grammatical before rows →
      replacements before intent crypt = .ok after →
        ∃ restored, transform after intent.principal = .ok restored ∧
          restored.passwd = before.passwd ∧ restored.shadow = before.shadow ∧
          (∀ file : File, restored.get file = bytesOf (render ((rows file).map
            (withoutMember intent.principal.login file.lists)))) ∧
          (Unnamed intent.principal.login rows → restored = before)) ∧
    ∀ before record after, transform before record = .ok after →
      (∀ file : File, Removed record.login file (before.get file) (after.get file)) ∧
        KeepsGroups record.login before := by
  refine ⟨fun before rows intent crypt after hgrammar h => ?_, fun before record after =>
    transform_removes⟩
  obtain ⟨new, hcreated⟩ := created hgrammar h
  obtain ⟨restored, hrestored, hget⟩ := hcreated.transform
  refine ⟨restored, hrestored, ?_, ?_, hget, fun hunnamed => files_ext fun file => ?_⟩
  · have hpasswd := hget .passwd
    rw [File.lists, withoutMember_nil, List.map_id] at hpasswd
    exact hpasswd.trans (hgrammar.table .passwd).1.symm
  · have hshadow := hget .shadow
    rw [File.lists, withoutMember_nil, List.map_id] at hshadow
    exact hshadow.trans (hgrammar.table .shadow).1.symm
  · rw [hget file, hunnamed.render_eq file, (hgrammar.table file).1]

/-! ## A list that names the account before it exists -/

/-- Files whose group lists a name that no account has. -/
def danglingRows : File → List Record
  | .passwd => [["root".toList, ['x'], ['0'], ['0'], [], "/root".toList, "/bin/sh".toList]]
  | .shadow => [["root".toList, ['!'], ['0'], ['0'], [], [], [], [], []]]
  | .group => [["wheel".toList, ['x'], "10".toList, "alice".toList]]
  | .gshadow => [["wheel".toList, ['!'], [], "alice".toList]]

def dangling : Files where
  passwd := bytesOf (render (danglingRows .passwd))
  shadow := bytesOf (render (danglingRows .shadow))
  group := bytesOf (render (danglingRows .group))
  gshadow := bytesOf (render (danglingRows .gshadow))

def alice : Intent where
  principal := ⟨"alice".toList, 1000⟩
  registryBefore := []
  checked := by decide

theorem dangling_created : (replacements dangling alice sampleHash).toOption.isSome = true := by
  decide +kernel

theorem dangling_table (file : File) : IsTable file.columns (danglingRows file) := by
  have hrows : ∀ r ∈ danglingRows file, r ≠ [] ∧ r.length = file.columns ∧ nameOf r ≠ [] ∧
      ∀ f ∈ r, PlainText f := by
    cases file <;> decide
  refine ⟨fun r hr => ?_, by cases file <;> decide, by cases file <;> decide⟩
  obtain ⟨hne, hlength, hname, hplain⟩ := hrows r hr
  obtain ⟨hrow, hclean⟩ := plain_row hne hplain
  exact ⟨hrow, hlength, hname, hclean⟩

theorem dangling_grammatical : Grammatical dangling danglingRows := by
  intro file
  refine ⟨deletionRows_eq_ok.mpr ⟨by cases file <;> rfl, dangling_table file, ?_⟩, ?_⟩
  · cases file <;> decide
  · have hlisted : Listed [] ∧ Listed "alice".toList := by
      unfold Listed
      decide
    cases file with
    | passwd | shadow => simp [File.lists]
    | group =>
      simp only [danglingRows, File.lists, List.mem_singleton, forall_eq]
      exact ⟨_, _, rfl, memberList_eq_ok.mpr ⟨rfl, hlisted.2⟩⟩
    | gshadow =>
      simp only [danglingRows, File.lists, forall_eq, List.mem_cons, List.not_mem_nil, or_false,
        forall_eq_or_imp]
      exact ⟨⟨_, _, rfl, memberList_eq_ok.mpr ⟨rfl, hlisted.1⟩⟩,
        ⟨_, _, rfl, memberList_eq_ok.mpr ⟨rfl, hlisted.2⟩⟩⟩

/-- **A name in a list is lost**: the files are well formed and the account is created, but deleting
it does not restore the group file. -/
theorem dangling_member : Grammatical dangling danglingRows ∧
    ∃ after, replacements dangling alice sampleHash = .ok after ∧
      ∀ restored, transform after alice.principal = .ok restored → restored ≠ dangling := by
  refine ⟨dangling_grammatical, ?_⟩
  cases h : replacements dangling alice sampleHash with
  | error e =>
    have hcreated := dangling_created
    rw [h] at hcreated
    cases hcreated
  | ok after =>
    refine ⟨after, rfl, ?_⟩
    rintro _ htransform rfl
    obtain ⟨_, rs', -, hgroup, -, -, hall⟩ := (transform_removes htransform).1 .group
    have hrows : ∀ r ∈ danglingRows .group, IsRow r := fun r hr =>
      ((dangling_table .group).rows r hr).1
    obtain rfl : danglingRows .group = rs' :=
      render_inj hrows (fun r hr => (hall r hr).1) (bytesOf_inj hgroup)
    obtain ⟨-, -, hunlisted⟩ := hall _ List.mem_cons_self
    exact hunlisted 3 (by decide) "alice".toList rfl (by decide)

end LumaOS.Accounts
