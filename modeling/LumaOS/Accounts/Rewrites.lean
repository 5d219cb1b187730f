import LumaOS.Accounts.Shadow
import LumaOS.Base.Loop

/-!
# Shadow rewriting touches one row

`Rewrites` says what a rewriting of a shadow file may change: the row of one account, its name
apart. `shadow_rewritten` collects the results: the four functions rewrite, no slice is out of
range, locking and unlocking undo each other, and the validators accept what the producers write.
The last two are about files that a `PrivateBuffer` holds; `oversized_shadow` shows a file one byte
larger for which they fail.
-/

namespace LumaOS.Accounts

open LumaOS.Base LumaOS.Text LumaOS.Json

variable {name : List Char} {input out before after : Bytes} {locked : Bool} {day : Nat}
  {hash : Hash}

/-- **Only the row of the account changes**, and it keeps its name. -/
def Rewrites (name : List Char) (before after : Bytes) : Prop :=
  ∃ rs rs' : List Record, before = bytesOf (render rs) ∧ after = bytesOf (render rs') ∧
    (∀ r ∈ rs, IsRow r ∧ r.length = 9) ∧ (∀ r ∈ rs', IsRow r ∧ r.length = 9) ∧
      List.Forall₂ (fun r r' => r'.head? = r.head? ∧ (r.head? ≠ some name → r' = r)) rs rs'

theorem Place.rows (p : Place name) :
    ∀ r ∈ p.before ++ p.record :: p.after, IsRow r ∧ r.length = 9 := by
  intro r hr
  rw [List.mem_append, List.mem_cons] at hr
  rcases hr with hr | rfl | hr
  · obtain ⟨h, hnine, -⟩ := p.others r (List.mem_append_left _ hr)
    exact ⟨h, hnine⟩
  · exact ⟨p.own, by rw [Place.record, List.length_cons, List.length_cons, p.columns]⟩
  · obtain ⟨h, hnine, -⟩ := p.others r (List.mem_append_right _ hr)
    exact ⟨h, hnine⟩

theorem Place.rewrites (p q : Place name) (hbefore : q.before = p.before)
    (hafter : q.after = p.after) : Rewrites name (bytesOf p.text) (bytesOf q.text) := by
  have hsame : ∀ rs : List Record, List.Forall₂
      (fun r r' => r'.head? = r.head? ∧ (r.head? ≠ some name → r' = r)) rs rs :=
    fun rs => List.forall₂_same.mpr fun r _ => ⟨rfl, fun _ => rfl⟩
  refine ⟨_, _, rfl, rfl, p.rows, q.rows, ?_⟩
  rw [hbefore, hafter]
  exact List.rel_append (hsame _) (.cons ⟨rfl, fun h => absurd rfl h⟩ (hsame _))

/-- Behind the first colon the same bytes can be put in another place. -/
theorem Place.set_eq (p : Place name) {value : List Char} (h : ':' ∉ value ∧ '\n' ∉ value) :
    Rewrites name (bytesOf p.text)
      (bytesOf p.front ++ (bytesOf value ++ (bytesOf p.policy ++ bytesOf p.back))) := by
  rw [← p.bytes_set h]
  exact p.rewrites (p.set value h) rfl rfl

/-! ## The producers -/

theorem changedShadow_rewrites (h : changedShadow input name locked = .ok out) :
    Rewrites name input out := by
  obtain ⟨p, rfl, husable⟩ := changedShadow_place h
  cases locked with
  | true =>
    rw [lock_at p husable] at h
    obtain ⟨-, -, rfl⟩ := granted_eq_ok.mp h
    have hbang : bytesOf ('!' :: p.value) = 33 :: bytesOf p.value := bytesOf_cons (by decide) _
    have hplain : ':' ∉ '!' :: p.value ∧ '\n' ∉ '!' :: p.value := by
      simpa using p.value_plain
    rw [← List.cons_append, ← hbang]
    exact p.set_eq hplain
  | false =>
    obtain ⟨cs, hcs⟩ := husable
    rw [unlock_at p hcs] at h
    obtain ⟨-, -, rfl⟩ := granted_eq_ok.mp h
    have hplain : ':' ∉ '$' :: cs ∧ '\n' ∉ '$' :: cs := by
      have := p.value_plain
      rw [hcs] at this
      simpa using this
    exact p.set_eq hplain

theorem passwordShadow_rewrites {a : Bytes × Bool} (h : passwordShadow input name hash = .ok a) :
    Rewrites name input a.1 := by
  obtain ⟨p, h, rfl, -, hhash, -, rfl⟩ := passwordShadow_eq_ok.mp h
  obtain ⟨cs, rfl, hcs, -⟩ := validateHash_text (Hash.valid hhash)
  obtain ⟨hplain, -, -, hbytes⟩ := marked_hash hcs (marked p.value)
  have hset := p.set_eq hplain
  rw [hbytes, List.append_assoc] at hset
  exact hset

theorem aged_rewrites (p : Place name) {h : Bytes} {u : Unit} (hvalid : validateHash h = .ok u) :
    Rewrites name (bytesOf p.text) (p.aged h day) := by
  obtain ⟨cs, rfl, hcs, -⟩ := validateHash_text hvalid
  obtain ⟨hcolon, hline, -⟩ := hash_plain (List.forall_mem_cons.mpr ⟨.inl rfl, hcs⟩)
  obtain ⟨q, hq, hbefore, -, -, hafter⟩ := aged_place p day ⟨hcolon, hline⟩
  rw [hq]
  exact p.rewrites q hbefore hafter

theorem activationShadow_rewrites (h : activationShadow input name day = .ok out) :
    Rewrites name input out := by
  obtain ⟨p, rfl, hvalid, rfl⟩ := activationShadow_eq_ok h
  exact aged_rewrites p hvalid

theorem recoveredShadow_rewrites (h : recoveredShadow input name hash day = .ok out) :
    Rewrites name input out := by
  obtain ⟨-, p, h, rfl, hhash, -, rfl⟩ := recoveredShadow_eq_ok.mp h
  exact aged_rewrites p (Hash.valid hhash)

/-! ## No slice is out of range -/

instance noPanic_validateHash (h : Bytes) : NoPanic (validateHash h) := by
  unfold validateHash
  infer_instance

instance noPanic_hashBytes (hash : Hash) : NoPanic hash.bytes := by
  unfold Hash.bytes
  infer_instance

theorem noPanic_field {fs : Record} {i : Nat} (h : fs.length = 9) (hi : i < 9) :
    NoPanic (expect fs[i]? outOfBounds) :=
  noPanic_expect (List.getElem?_eq_getElem (by omega : i < fs.length)) _

theorem noPanic_select {α : Type} {visit : Nat → Nat → Record → Option α → Result α}
    {encoding missing : String}
    (hv : ∀ o n fs s, fs.length = 9 → NoPanic (visit o n fs s)) :
    NoPanic (select name visit encoding missing input) := by
  refine noPanic_bind inferInstance fun text _ => noPanic_bind ?_ fun s _ => inferInstance
  refine noPanic_foldlM (fun s row => noPanic_bind inferInstance fun _ hnine => ?_) _ _
  rw [refuseIf_eq_ok, bne_eq_false_iff_eq] at hnine
  refine noPanic_bind (noPanic_field hnine (by decide)) fun first _ => ?_
  have hvisit := hv s.1 (bytesOf row).length _ s.2 hnine
  split <;> infer_instance

theorem noPanic_lockVisit {o n : Nat} {fs : Record} {s : Option Nat} (h : fs.length = 9) :
    NoPanic (lockVisit name locked o n fs s) := by
  have hfield := noPanic_field h (by decide : 1 < 9)
  unfold lockVisit
  infer_instance

theorem noPanic_changedShadow : NoPanic (changedShadow input name locked) := by
  refine noPanic_bind inferInstance fun _ hend =>
    noPanic_bind (noPanic_select fun _ _ _ _ => noPanic_lockVisit) fun offset hselect => ?_
  rw [refuseIf_eq_ok, complete_iff] at hend
  obtain ⟨p, rfl, hvisit⟩ := (select_eq_ok (fun _ _ _ _ _ => lockVisit_some) hend).mp hselect
  rw [← changedShadow_at p hvisit]
  obtain ⟨husable, -⟩ := lockVisit_eq_ok.mp hvisit
  cases locked with
  | true =>
    rw [lock_at p husable]
    infer_instance
  | false =>
    obtain ⟨cs, hcs⟩ := husable
    rw [unlock_at p hcs]
    infer_instance

theorem noPanic_passwordColumn : NoPanic (passwordColumn input name) := by
  refine noPanic_bind inferInstance fun _ _ => noPanic_select fun o n fs s h => ?_
  have hfield := noPanic_field h (by decide : 1 < 9)
  unfold passwordVisit
  infer_instance

theorem noPanic_passwordShadow : NoPanic (passwordShadow input name hash) := by
  refine noPanic_bind noPanic_passwordColumn fun column hcolumn =>
    noPanic_bind inferInstance fun h _ => ?_
  obtain ⟨p, rfl, -, rfl⟩ := passwordColumn_eq_ok.mp hcolumn
  simp only [passwordWritten_text]
  infer_instance

theorem noPanic_activationShadow : NoPanic (activationShadow input name day) := by
  refine noPanic_bind inferInstance fun _ hend =>
    noPanic_bind (noPanic_select fun o n fs s h => ?_) fun found hselect => ?_
  · have hvalue := noPanic_field h (by decide : 1 < 9)
    have hchanged := noPanic_field h (by decide : 2 < 9)
    unfold activationVisit
    infer_instance
  · rw [refuseIf_eq_ok] at hend
    simp only [Bool.or_eq_false_iff, Bool.not_eq_false'] at hend
    obtain ⟨p, rfl, hvisit⟩ :=
      (select_eq_ok (fun _ _ _ _ _ => activationVisit_some) hend.2).mp hselect
    simp only [activationVisit, bind_eq_ok, pure_eq_ok] at hvisit
    obtain ⟨_, -, value, -, _, -, _, -, _, -, rfl⟩ := hvisit
    have haged := agedWritten_text p (bytesOf ((stripBang value).getD value)) day
    rw [← size_stop p, p.size_front] at haged
    simp only [haged]
    infer_instance

theorem noPanic_recoveryVisit {ambiguous : String} {o n : Nat} {fs : Record}
    {s : Option (Nat × Nat)} : NoPanic (recoveryVisit ambiguous name o n fs s) := by
  unfold recoveryVisit
  infer_instance

theorem noPanic_recoveredShadow : NoPanic (recoveredShadow input name hash day) := by
  refine noPanic_bind inferInstance fun _ hend =>
    noPanic_bind (noPanic_select fun _ _ _ _ _ => noPanic_recoveryVisit) fun found hselect =>
      noPanic_bind inferInstance fun h _ => ?_
  rw [refuseIf_eq_ok] at hend
  simp only [Bool.or_eq_false_iff, Bool.not_eq_false'] at hend
  obtain ⟨p, rfl, rfl⟩ := recovery_select.mp ⟨hend.2, hselect⟩
  simp only [agedWritten_text]
  infer_instance

theorem noPanic_changedElsewhere {first : Bool} {a b c d : Bytes} {old new : Nat × Nat}
    (ha : slice before 0 old.1 = .ok a) (hb : slice after 0 new.1 = .ok b)
    (hc : slice before old.2 before.length = .ok c) (hd : slice after new.2 after.length = .ok d) :
    NoPanic (changedElsewhere first before after old new) := by
  unfold changedElsewhere
  rw [ha, hb, hc, hd]
  infer_instance

theorem noPanic_validatePasswordChange : NoPanic (validatePasswordChange before after name) := by
  refine noPanic_bind noPanic_passwordColumn fun _ hbefore =>
    noPanic_bind noPanic_passwordColumn fun _ hafter => ?_
  obtain ⟨p, rfl, -, rfl⟩ := passwordColumn_eq_ok.mp hbefore
  obtain ⟨q, rfl, -, rfl⟩ := passwordColumn_eq_ok.mp hafter
  refine noPanic_bind (noPanic_changedElsewhere (slice_front p rfl) (slice_front q rfl)
    (slice_behind p rfl) (slice_behind q rfl)) fun _ _ => ?_
  simp only [slice_bare q rfl rfl]
  infer_instance

theorem noPanic_recoveryRows : NoPanic (recoveryRows input name) :=
  noPanic_bind inferInstance fun _ _ => noPanic_select fun _ _ _ _ _ => noPanic_recoveryVisit

theorem noPanic_validateRecoveredShadow :
    NoPanic (validateRecoveredShadow before after name day) := by
  refine noPanic_bind noPanic_recoveryRows fun _ hbefore =>
    noPanic_bind noPanic_recoveryRows fun _ hafter => ?_
  obtain ⟨p, rfl, rfl⟩ := recoveryRows_eq_ok.mp hbefore
  obtain ⟨q, rfl, rfl⟩ := recoveryRows_eq_ok.mp hafter
  obtain ⟨hfind, hfirst, hlast⟩ := row_parts q
  refine noPanic_bind (noPanic_changedElsewhere (slice_front p rfl) (slice_front q rfl)
    (slice_back p) (slice_back q)) fun _ _ => ?_
  refine noPanic_bind inferInstance fun _ _ => noPanic_bind (by rw [slice_row q]; infer_instance)
    fun r hr => noPanic_bind inferInstance fun stop hstop => ?_
  obtain rfl := Except.ok.inj ((slice_row q).symm.trans hr)
  obtain rfl := Option.some.inj (hfind.symm.trans (okOr_eq_ok.mp hstop))
  simp only [hfirst, hlast]
  infer_instance

/-! ## Locking and unlocking -/

theorem text_granted (p : Place name) (hsize : (bytesOf p.text).length ≤ maxBlob) :
    granted (bytesOf p.front ++ (bytesOf p.value ++ (bytesOf p.policy ++ bytesOf p.back))) =
      .ok (bytesOf p.text) := by
  rw [← p.bytes_text]
  refine granted_eq_ok.mpr ⟨?_, hsize, rfl⟩
  rw [p.bytes_text]
  exact front_pos p

/-- **Locking and unlocking undo each other** on a file that a buffer holds. -/
theorem changedShadow_inverse {mid : Bytes} (hsize : input.length ≤ maxBlob)
    (h : changedShadow input name locked = .ok mid) :
    changedShadow mid name (!locked) = .ok input := by
  obtain ⟨p, rfl, husable⟩ := changedShadow_place h
  cases locked with
  | true =>
    rw [lock_at p husable] at h
    obtain ⟨-, -, rfl⟩ := granted_eq_ok.mp h
    obtain ⟨cs, hcs⟩ := husable
    have hplain : ':' ∉ '!' :: p.value ∧ '\n' ∉ '!' :: p.value := by simpa using p.value_plain
    have hbang : bytesOf ('!' :: p.value) = 33 :: bytesOf p.value := bytesOf_cons (by decide) _
    have hback := unlock_at (p.set _ hplain) (congrArg _ hcs)
    rw [p.bytes_set, hbang, ← hcs] at hback
    exact hback.trans (text_granted p hsize)
  | false =>
    obtain ⟨cs, hcs⟩ := husable
    rw [unlock_at p hcs] at h
    obtain ⟨-, -, rfl⟩ := granted_eq_ok.mp h
    have hplain : ':' ∉ '$' :: cs ∧ '\n' ∉ '$' :: cs := by
      have hvalue := p.value_plain
      rw [hcs] at hvalue
      simpa using hvalue
    have hbang : bytesOf p.value = 33 :: bytesOf ('$' :: cs) := by
      rw [hcs]
      exact bytesOf_cons (by decide) _
    have hback := lock_at (p.set _ hplain) ⟨cs, rfl⟩
    rw [p.bytes_set] at hback
    refine hback.trans ?_
    rw [← text_granted p hsize, hbang]
    rfl

/-! ## The validators -/

theorem validatePasswordChange_iff (hsize : after.length ≤ maxBlob) :
    validatePasswordChange before after name = .ok locked ↔
      ∃ (hash : Hash) (h : Bytes), hash.bytes = .ok h ∧ validateHash h = .ok () ∧
        passwordShadow before name hash = .ok (after, locked) := by
  rw [validatePasswordChange_eq_ok]
  constructor
  · rintro ⟨p, h, rfl, hvalue, hvalid, rfl, rfl⟩
    obtain ⟨hash, hhash⟩ := exists_hash hvalid
    exact ⟨hash, h, hhash, hvalid,
      passwordShadow_eq_ok.mpr ⟨p, h, rfl, hvalue, hhash, hsize, rfl⟩⟩
  · rintro ⟨hash, _, -, -, hwritten⟩
    obtain ⟨p, h, rfl, hvalue, hhash, -, heq⟩ := passwordShadow_eq_ok.mp hwritten
    obtain ⟨rfl, rfl⟩ := Prod.mk.inj heq
    exact ⟨p, h, rfl, hvalue, Hash.valid hhash, rfl, rfl⟩

theorem validateRecoveredShadow_iff (hday : 1 ≤ day ∧ day ≤ 47483)
    (hsize : after.length ≤ maxBlob) :
    validateRecoveredShadow before after name day = .ok () ↔
      ∃ (hash : Hash) (h : Bytes), hash.bytes = .ok h ∧ validateHash h = .ok () ∧
        recoveredShadow before name hash day = .ok after := by
  rw [validateRecoveredShadow_eq_ok]
  constructor
  · rintro ⟨p, h, rfl, hvalid, rfl⟩
    obtain ⟨hash, hhash⟩ := exists_hash hvalid
    exact ⟨hash, h, hhash, hvalid, recoveredShadow_eq_ok.mpr
      ⟨⟨Nat.one_le_iff_ne_zero.mp hday.1, hday.2⟩, p, h, rfl, hhash, hsize, rfl⟩⟩
  · rintro ⟨hash, _, -, -, hwritten⟩
    obtain ⟨-, p, h, rfl, hhash, -, rfl⟩ := recoveredShadow_eq_ok.mp hwritten
    exact ⟨p, h, rfl, Hash.valid hhash, rfl⟩

/-- **Shadow rewriting touches one row**, slices stay in range, and on files that a buffer holds
the lock state can be put back and the validators accept exactly what the producers write. -/
theorem shadow_rewritten (name : List Char) (input : Bytes) :
    ((∀ locked out, changedShadow input name locked = .ok out → Rewrites name input out) ∧
      (∀ hash out locked, passwordShadow input name hash = .ok (out, locked) →
        Rewrites name input out) ∧
      (∀ day out, activationShadow input name day = .ok out → Rewrites name input out) ∧
      (∀ hash day out, recoveredShadow input name hash day = .ok out →
        Rewrites name input out)) ∧
    ((∀ locked, NoPanic (changedShadow input name locked)) ∧
      (∀ hash, NoPanic (passwordShadow input name hash)) ∧
      (∀ day, NoPanic (activationShadow input name day)) ∧
      (∀ hash day, NoPanic (recoveredShadow input name hash day)) ∧
      (∀ after, NoPanic (validatePasswordChange input after name)) ∧
      (∀ after day, NoPanic (validateRecoveredShadow input after name day))) ∧
    (∀ locked mid, input.length ≤ maxBlob → changedShadow input name locked = .ok mid →
      changedShadow mid name (!locked) = .ok input) ∧
    (∀ after locked, after.length ≤ maxBlob →
      (validatePasswordChange input after name = .ok locked ↔
        ∃ (hash : Hash) (h : Bytes), hash.bytes = .ok h ∧ validateHash h = .ok () ∧
          passwordShadow input name hash = .ok (after, locked))) ∧
    (∀ after day, 1 ≤ day → day ≤ 47483 → after.length ≤ maxBlob →
      (validateRecoveredShadow input after name day = .ok () ↔
        ∃ (hash : Hash) (h : Bytes), hash.bytes = .ok h ∧ validateHash h = .ok () ∧
          recoveredShadow input name hash day = .ok after)) := by
  refine ⟨⟨fun locked out => changedShadow_rewrites, fun hash out locked => ?_,
    fun day out => activationShadow_rewrites, fun hash day out => recoveredShadow_rewrites⟩,
    ⟨fun locked => noPanic_changedShadow, fun hash => noPanic_passwordShadow,
      fun day => noPanic_activationShadow, fun hash day => noPanic_recoveredShadow,
      fun after => noPanic_validatePasswordChange,
      fun after day => noPanic_validateRecoveredShadow⟩,
    fun locked mid => changedShadow_inverse, fun after locked => validatePasswordChange_iff,
    fun after day hlow hhigh => validateRecoveredShadow_iff ⟨hlow, hhigh⟩⟩
  intro h
  exact passwordShadow_rewrites h

/-! ## A file one byte too large -/

/-- A row with one filled field. -/
def longRow (field : List Char) : Record := [['b'], [], [], [], [], [], [], [], field]

theorem row_longRow (field : List Char) :
    row (longRow field) = "b::::::::".toList ++ (field ++ ['\n']) := by
  simp [row, longRow, joined, List.intercalate]

theorem isRow_longRow {n : Nat} : IsRow (longRow (List.replicate n 'x')) := by
  refine ⟨List.cons_ne_nil _ _, ?_⟩
  have hlong : ':' ∉ List.replicate n 'x' ∧ '\n' ∉ List.replicate n 'x' := by
    simp only [List.mem_replicate]
    exact ⟨fun h => absurd h.2 (by decide), fun h => absurd h.2 (by decide)⟩
  simp only [longRow, List.mem_cons, List.not_mem_nil, or_false, forall_eq_or_imp, forall_eq]
  exact ⟨by decide, by decide, by decide, by decide, by decide, by decide, by decide, by decide,
    hlong⟩

/-- A locked account in front of a long row. -/
def oversized : Place ['a'] where
  before := []
  value := ['!', '$']
  rest := List.replicate 7 []
  after := [longRow (List.replicate 16363 'x')]
  others := by
    rw [List.nil_append, List.forall_mem_singleton]
    exact ⟨isRow_longRow, rfl, by decide⟩
  own := ⟨List.cons_ne_nil _ _, by decide⟩
  columns := List.length_replicate

theorem size_replicate (n : Nat) : size (List.replicate n 'x') = n := by
  have hone : size ['x'] = 1 := by decide
  induction n with
  | zero => rfl
  | succ n ih =>
    rw [List.replicate_succ, ← List.singleton_append, size_append, ih, hone, Nat.add_comm]

theorem size_back_oversized : size oversized.back = 16373 := by
  have hback : oversized.back = row (longRow (List.replicate 16363 'x')) ++ [] := render_cons
  have hhead : size "b::::::::".toList = 9 := by decide
  have hline : size ['\n'] = 1 := by decide
  rw [hback, List.append_nil, row_longRow, size_append, size_append, size_replicate, hhead, hline]

theorem length_sampleHash : sampleHash.length = 67 := by decide

theorem oversized_length : (bytesOf oversized.text).length = 16385 := by
  have hback := size_back_oversized
  have hvalue : (bytesOf oversized.value).length = 2 := by decide
  have hpolicy : (bytesOf oversized.policy).length = 8 := by decide
  have hfront : (bytesOf oversized.front).length = 2 := by decide
  rw [size] at hback
  rw [oversized.bytes_text, List.length_append, List.length_append, List.length_append, hfront,
    hvalue, hpolicy, hback]

theorem oversized_rehashed : maxBlob < (oversized.rehashed sampleHash).length := by
  have hback := size_back_oversized
  rw [size] at hback
  simp only [Place.rehashed, List.length_append, hback, length_sampleHash]
  exact Nat.lt_of_lt_of_le (by decide : maxBlob < 16385) (by omega)

theorem oversized_aged : maxBlob < (oversized.aged sampleHash 1).length := by
  have hback := size_back_oversized
  rw [size] at hback
  simp only [Place.aged, List.length_append, hback, length_sampleHash]
  exact Nat.lt_of_lt_of_le (by decide : maxBlob < 16385) (by omega)

theorem oversized_unlock : ∃ mid, changedShadow (bytesOf oversized.text) ['a'] false = .ok mid ∧
    changedShadow mid ['a'] true ≠ .ok (bytesOf oversized.text) := by
  have hunlock := unlock_at oversized (rfl : oversized.value = '!' :: '$' :: [])
  refine ⟨_, hunlock.trans (granted_eq_ok.mpr ⟨front_pos oversized, ?_, rfl⟩), fun h => ?_⟩
  · have hlength := oversized_length
    rw [oversized.bytes_text] at hlength
    have hvalue : (bytesOf oversized.value).length = 2 := by decide
    have hbare : (bytesOf ['$']).length = 1 := by decide
    have hmax : maxBlob = 16384 := rfl
    simp only [List.length_append, hvalue, hbare, hmax] at hlength ⊢
    omega
  · obtain ⟨p, hp, husable⟩ := changedShadow_place h
    rw [hp, lock_at p husable] at h
    obtain ⟨-, hsize, heq⟩ := granted_eq_ok.mp h
    rw [← heq, oversized_length] at hsize
    exact absurd hsize (by decide)

/-- **A file one byte larger than a buffer** can be unlocked but not locked again, and the
validators accept files of which no producer writes any. -/
theorem oversized_shadow :
    (∃ mid, changedShadow (bytesOf oversized.text) ['a'] false = .ok mid ∧
      changedShadow mid ['a'] true ≠ .ok (bytesOf oversized.text)) ∧
    (∃ after, validatePasswordChange (bytesOf oversized.text) after ['a'] = .ok true ∧
      ∀ hash, passwordShadow (bytesOf oversized.text) ['a'] hash ≠ .ok (after, true)) ∧
    ∃ after, validateRecoveredShadow (bytesOf oversized.text) after ['a'] 1 = .ok () ∧
      ∀ hash, recoveredShadow (bytesOf oversized.text) ['a'] hash 1 ≠ .ok after := by
  refine ⟨oversized_unlock, ⟨oversized.rehashed sampleHash, ?_, fun hash h => ?_⟩,
    oversized.aged sampleHash 1, ?_, fun hash h => ?_⟩
  · exact validatePasswordChange_eq_ok.mpr
      ⟨oversized, sampleHash, rfl, rfl, validateHash_sampleHash, rfl, rfl⟩
  · obtain ⟨p, h, -, -, -, hsize, heq⟩ := passwordShadow_eq_ok.mp h
    rw [← (Prod.mk.inj heq).1] at hsize
    exact absurd oversized_rehashed (Nat.not_lt.mpr hsize)
  · exact validateRecoveredShadow_eq_ok.mpr
      ⟨oversized, sampleHash, rfl, validateHash_sampleHash, rfl⟩
  · obtain ⟨-, p, h, -, -, hsize, heq⟩ := recoveredShadow_eq_ok.mp h
    rw [← heq] at hsize
    exact absurd oversized_aged (Nat.not_lt.mpr hsize)

end LumaOS.Accounts
