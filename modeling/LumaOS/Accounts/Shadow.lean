import LumaOS.Accounts.Buffer

/-!
# The shadow file of an account

`changed_shadow`, `password_column`, `password_shadow`, `validate_password_change`,
`activation_shadow`, `recovered_shadow` and `validate_recovered_shadow` of `account_transition.rs`.
The five loops over the rows of a file differ in what they look at in the row of the account; they
are `select` with that as its parameter.

A `Place` is a shadow file taken apart at the password of an account. `select_eq_ok` says that the
loops find a place, and every function is then described by what it makes of one (`_eq_ok`).
-/

namespace LumaOS.Accounts

open LumaOS.Base LumaOS.Text LumaOS.Json

section Loop

variable {α : Type} (name : List Char) (visit : Nat → Nat → Record → Option α → Result α)

/-- One row: `visit` gets its offset, its size, its fields and what was selected before. -/
def scanRow (s : Nat × Option α) (row : List Char) : Result (Nat × Option α) := do
  let fs := fields (trimEnd row)
  refuseIf (fs.length != 9) "invalid shadow record"
  let first ← expect fs[0]? outOfBounds
  let size := (bytesOf row).length
  let selected ← if first == name then do
      let a ← visit s.1 size fs s.2
      pure (some a)
    else pure s.2
  pure (s.1 + size, selected)

/-- The loop, and what it must have found. -/
def select (encoding missing : String) (input : Bytes) : Result α := do
  let text ← okOr (utf8Text input) encoding
  let scanned ← (lines text.toList).foldlM (scanRow name visit) (0, none)
  okOr scanned.2 missing

end Loop

/-- `value.strip_prefix('!')`. -/
def stripBang : List Char → Option (List Char)
  | '!' :: cs => some cs
  | _ => none

/-- The size of a text. -/
def size (cs : List Char) : Nat := (bytesOf cs).length

/-- What `changed_shadow` looks at. -/
def lockVisit (name : List Char) (locked : Bool) (offset _size : Nat) (fs : Record)
    (selected : Option Nat) : Result Nat := do
  refuseIf selected.isSome "ambiguous shadow record"
  let value ← expect fs[1]? outOfBounds
  let unlocked := (stripBang value).getD value
  refuseIf (unlocked.isEmpty || (unlocked.head? == some '!' || unlocked.head? == some '*') ||
    unlocked.head? != some '$' || (value.head? == some '!') == locked)
    "lock transition requires a usable credential and changed lock state"
  pure (offset + size name + 1)

/-- What `changed_shadow` writes. -/
def lockWritten (input : Bytes) (offset : Nat) (locked : Bool) : Result Bytes := do
  let length ← if locked then pure (input.length + 1) else usizeSub input.length 1
  let output ← privateBuffer length
  let output ← copyAt output 0 offset (← slice input 0 offset)
  if locked then do
    let output ← copyAt output offset (offset + 1) [33]
    copyAt output (offset + 1) output.length (← slice input offset input.length)
  else copyAt output offset output.length (← slice input (offset + 1) input.length)

def changedShadow (input : Bytes) (name : List Char) (locked : Bool) : Result Bytes := do
  refuseIf (input.isEmpty || !endsWithNewline input)
    "shadow publication requires complete newline-terminated records"
  let offset ← select name (lockVisit name locked) "invalid account encoding"
    "missing shadow record" input
  lockWritten input offset locked

/-- What `password_column` looks at. -/
def passwordVisit (name : List Char) (offset _size : Nat) (fs : Record)
    (selected : Option (Nat × Nat × Bool)) : Result (Nat × Nat × Bool) := do
  let value ← expect fs[1]? outOfBounds
  let hash := (stripBang value).getD value
  refuseIf (selected.isSome || hash.head? != some '$')
    "account password changes require an unambiguous existing crypt credential"
  let start := offset + size name + 1
  pure (start, start + size value, value.head? == some '!')

def passwordColumn (input : Bytes) (name : List Char) : Result (Nat × Nat × Bool) := do
  refuseIf (input.isEmpty || !endsWithNewline input) "incomplete shadow records"
  select name (passwordVisit name) "invalid shadow encoding" "missing account credential" input

/-- What `password_shadow` writes. -/
def passwordWritten (input : Bytes) (start stop : Nat) (locked : Bool) (hash : Bytes) :
    Result Bytes := do
  let capacity ← usizeSub input.length (← usizeSub stop start)
  let output ← privateBuffer (capacity + hash.length + locked.toNat)
  let output ← copyAt output 0 start (← slice input 0 start)
  let after := start + locked.toNat
  let output ← if locked then copyAt output start (start + 1) [33] else pure output
  let output ← copyAt output after (after + hash.length) hash
  copyAt output (after + hash.length) output.length (← slice input stop input.length)

def passwordShadow (input : Bytes) (name : List Char) (hash : Hash) : Result (Bytes × Bool) := do
  let (start, stop, locked) ← passwordColumn input name
  let hash ← hash.bytes
  let output ← passwordWritten input start stop locked hash
  pure (output, locked)

/-- Whether `first` holds, or the files differ in front of the given ranges or behind them. -/
def changedElsewhere (first : Bool) (before after : Bytes) (old new : Nat × Nat) : Result Bool :=
  if first then pure true
  else do
    let a ← slice before 0 old.1
    let b ← slice after 0 new.1
    if a != b then pure true
    else do
      let c ← slice before old.2 before.length
      let d ← slice after new.2 after.length
      pure (c != d)

def validatePasswordChange (before after : Bytes) (name : List Char) : Result Bool := do
  let (oldStart, oldEnd, oldLocked) ← passwordColumn before name
  let (newStart, newEnd, newLocked) ← passwordColumn after name
  let changed ← changedElsewhere (oldLocked != newLocked || oldStart != newStart) before after
    (oldStart, oldEnd) (newStart, newEnd)
  refuseIf changed "password transition changes unrelated rows, aging or lock state"
  validateHash (← slice after (newStart + newLocked.toNat) newEnd)
  pure newLocked

/-- `format!(":{day}:0:90:7:::\n")`. -/
def ageText (day : Nat) : List Char :=
  ':' :: Nat.toDigits 10 day ++ ":0:90:7:::\n".toList

/-- What `activation_shadow` looks at. -/
def activationVisit (name : List Char) (offset size' : Nat) (fs : Record)
    (selected : Option (Nat × Nat × List Char)) : Result (Nat × Nat × List Char) := do
  refuseIf selected.isSome "ambiguous shadow record"
  let value ← expect fs[1]? outOfBounds
  let crypt := (stripBang value).getD value
  validateHash (bytesOf crypt)
  let changed ← expect fs[2]? outOfBounds
  refuseIf (changed != ['0'] ||
    fs.drop 3 != [['0'], "99999".toList, ['7'], [], [], []])
    "activation requires the exact creation aging policy"
  pure (offset + size name + 1, offset + size', crypt)

/-- What `activation_shadow` and `recovered_shadow` write. -/
def agedWritten (input : Bytes) (start stop : Nat) (crypt age : Bytes) : Result Bytes := do
  let capacity ← usizeSub input.length (← usizeSub stop start)
  let output ← privateBuffer (capacity + crypt.length + age.length)
  let output ← copyAt output 0 start (← slice input 0 start)
  let output ← copyAt output start (start + crypt.length) crypt
  let output ← copyAt output (start + crypt.length) (start + crypt.length + age.length) age
  copyAt output (start + crypt.length + age.length) output.length (← slice input stop input.length)

def activationShadow (input : Bytes) (name : List Char) (day : Nat) : Result Bytes := do
  refuseIf (day == 0 || day > 47483 || input.isEmpty || !endsWithNewline input)
    "invalid protected UTC password-aging day"
  let (start, stop, crypt) ← select name (activationVisit name) "invalid shadow encoding"
    "missing activation credential" input
  agedWritten input start stop (bytesOf crypt) (bytesOf (ageText day))

/-- What `recovered_shadow` and `validate_recovered_shadow` look at. -/
def recoveryVisit (ambiguous : String) (name : List Char) (offset size' : Nat) (_fs : Record)
    (selected : Option (Nat × Nat)) : Result (Nat × Nat) := do
  refuseIf selected.isSome ambiguous
  pure (offset + size name + 1, offset + size')

def recoveredShadow (input : Bytes) (name : List Char) (password : Hash) (day : Nat) :
    Result Bytes := do
  refuseIf (day == 0 || day > 47483 || !endsWithNewline input) "invalid recovery aging day"
  let (start, stop) ← select name (recoveryVisit "ambiguous Admin shadow record" name)
    "invalid shadow encoding" "missing Admin shadow record" input
  let hash ← password.bytes
  agedWritten input start stop hash (bytesOf (ageText day))

/-- The `rows` of `validate_recovered_shadow`. -/
def recoveryRows (input : Bytes) (name : List Char) : Result (Nat × Nat) := do
  refuseIf (!endsWithNewline input) "incomplete recovery shadow"
  select name (recoveryVisit "ambiguous Admin shadow" name) "invalid shadow encoding"
    "missing recovery shadow" input

def validateRecoveredShadow (before after : Bytes) (name : List Char) (day : Nat) :
    Result Unit := do
  let (oldStart, oldEnd) ← recoveryRows before name
  let (newStart, newEnd) ← recoveryRows after name
  let changed ← changedElsewhere (oldStart != newStart) before after (oldStart, oldEnd)
    (newStart, newEnd)
  refuseIf changed "Admin recovery changes unrelated shadow rows"
  let row ← slice after newStart newEnd
  let stop ← okOr (row.findIdx? (· == 58)) "missing recovered hash"
  validateHash (← slice row 0 stop)
  refuseIf ((← slice row stop row.length) != bytesOf (ageText day))
    "Admin recovery changes reviewed aging policy"

/-! ## A file taken apart -/

/-- **A shadow file, taken apart at the password of an account.** -/
structure Place (name : List Char) where
  before : List Record
  value : List Char
  rest : Record
  after : List Record
  others : ∀ r ∈ before ++ after, IsRow r ∧ r.length = 9 ∧ r.head? ≠ some name
  own : IsRow (name :: value :: rest)
  columns : rest.length = 7

namespace Place

variable {name : List Char} (p : Place name)

/-- The row of the account. -/
def record : Record := name :: p.value :: p.rest

/-- The file. -/
def text : List Char := render (p.before ++ p.record :: p.after)

/-- What stands before the password, behind it in its row, and behind the row. -/
def front : List Char := render p.before ++ name ++ [':']
def policy : List Char := ':' :: joined p.rest ++ ['\n']
def back : List Char := render p.after

theorem rest_ne_nil : p.rest ≠ [] := by
  intro h
  have := p.columns
  rw [h] at this
  cases this

theorem row_record : row p.record = name ++ ':' :: (p.value ++ p.policy) := by
  rw [record, row, joined_cons name (List.cons_ne_nil _ _), joined_cons p.value p.rest_ne_nil,
    policy]
  simp

theorem text_eq : p.text = p.front ++ (p.value ++ (p.policy ++ p.back)) := by
  rw [text, render_append, render_cons, row_record, front, back]
  simp

end Place

/-! ## The loops find the place -/

section

variable {α : Type} {name : List Char} {visit : Nat → Nat → Record → Option α → Result α}
  {rs : List Record} {r : Record} {o o' : Nat} {a b : α} {selected : Option α}

/-- The size of rows. -/
def sizes (rs : List Record) : Nat := size (render rs)

theorem size_append (cs ds : List Char) : size (cs ++ ds) = size cs + size ds := by
  rw [size, bytesOf_append, List.length_append]
  rfl

theorem sizes_cons : sizes (r :: rs) = size (row r) + sizes rs := by
  rw [sizes, render_cons, size_append]
  rfl

theorem scanRow_other (h : IsRow r) (hne : r.head? ≠ some name) :
    scanRow name visit (o, selected) (row r) = .ok (o', selected') ↔
      r.length = 9 ∧ o' = o + size (row r) ∧ selected' = selected := by
  obtain ⟨first, rest, rfl⟩ := List.exists_cons_of_ne_nil h.nonempty
  have hfirst : (first == name) = false := by
    rw [beq_eq_false_iff_ne]
    rintro rfl
    exact hne rfl
  simp only [scanRow, fields_row h, bind_eq_ok, refuseIf_eq_ok, bne_eq_false_iff_eq, expect_eq_ok,
    pure_eq_ok, exists_const, List.getElem?_cons_zero, Option.some.injEq, exists_eq_left', hfirst,
    Bool.false_eq_true, if_false, Prod.mk.injEq]
  constructor
  · rintro ⟨hlength, rfl, rfl⟩
    exact ⟨hlength, rfl, rfl⟩
  · rintro ⟨hlength, rfl, rfl⟩
    exact ⟨hlength, rfl, rfl⟩

theorem scanRow_own (h : IsRow r) (hname : r.head? = some name) :
    scanRow name visit (o, selected) (row r) = .ok (o', selected') ↔
      r.length = 9 ∧ o' = o + size (row r) ∧
        ∃ a, visit o (size (row r)) r selected = .ok a ∧ selected' = some a := by
  obtain ⟨first, rest, rfl⟩ := List.exists_cons_of_ne_nil h.nonempty
  obtain rfl : first = name := Option.some.inj hname
  simp only [scanRow, fields_row h, bind_eq_ok, refuseIf_eq_ok, bne_eq_false_iff_eq, expect_eq_ok,
    pure_eq_ok, exists_const, List.getElem?_cons_zero, Option.some.injEq, exists_eq_left',
    BEq.rfl, if_true, Prod.mk.injEq]
  constructor
  · rintro ⟨hlength, a, ha, rfl, rfl⟩
    exact ⟨hlength, rfl, a, ha, rfl⟩
  · rintro ⟨hlength, rfl, a, ha, rfl⟩
    exact ⟨hlength, a, ha, rfl, rfl⟩

/-- Behind the row of the account there is no other. -/
theorem scan_selected (hv : ∀ o n fs a b, visit o n fs (some a) ≠ .ok b) :
    ∀ {rs : List Record} {o o' : Nat} {selected : Option α}, (∀ r ∈ rs, IsRow r) →
    ((rs.map row).foldlM (scanRow name visit) (o, some a) = .ok (o', selected) ↔
      (∀ r ∈ rs, r.length = 9 ∧ r.head? ≠ some name) ∧ o' = o + sizes rs ∧ selected = some a)
  | [], o, o', selected, _ => by
    rw [List.map_nil, List.foldlM_nil, pure_eq_ok, Prod.mk.injEq]
    simp [sizes, size, render, bytesOf, eq_comm]
  | r :: rs, o, o', selected, h => by
    obtain ⟨hr, hrs⟩ := List.forall_mem_cons.mp h
    rw [List.map_cons, List.foldlM_cons, bind_eq_ok, sizes_cons, List.forall_mem_cons]
    by_cases hname : r.head? = some name
    · constructor
      · rintro ⟨⟨o1, s1⟩, hrow, -⟩
        obtain ⟨-, -, b, hb, -⟩ := (scanRow_own hr hname).mp hrow
        exact absurd hb (hv _ _ _ _ _)
      · rintro ⟨⟨⟨-, hne⟩, -⟩, -⟩
        exact absurd hname hne
    · constructor
      · rintro ⟨⟨o1, s1⟩, hrow, hrest⟩
        obtain ⟨hlength, rfl, rfl⟩ := (scanRow_other hr hname).mp hrow
        obtain ⟨hothers, rfl, rfl⟩ := (scan_selected hv hrs).mp hrest
        exact ⟨⟨⟨hlength, hname⟩, hothers⟩, by omega, rfl⟩
      · rintro ⟨⟨⟨hlength, -⟩, hothers⟩, rfl, rfl⟩
        exact ⟨_, (scanRow_other hr hname).mpr ⟨hlength, rfl, rfl⟩,
          (scan_selected hv hrs).mpr ⟨hothers, by omega, rfl⟩⟩

/-- **The loop** ends with the only row of the account. -/
theorem scan_eq_ok (hv : ∀ o n fs a b, visit o n fs (some a) ≠ .ok b) :
    ∀ {rs : List Record} {o o' : Nat}, (∀ r ∈ rs, IsRow r) →
    ((rs.map row).foldlM (scanRow name visit) (o, none) = .ok (o', some a) ↔
      ∃ before r after, rs = before ++ r :: after ∧ (∀ r ∈ rs, r.length = 9) ∧
        r.head? = some name ∧ (∀ r ∈ before ++ after, r.head? ≠ some name) ∧
          visit (o + sizes before) (size (row r)) r none = .ok a ∧ o' = o + sizes rs)
  | [], o, o', _ => by
    rw [List.map_nil, List.foldlM_nil, pure_eq_ok, Prod.mk.injEq]
    simp
  | r :: rs, o, o', h => by
    obtain ⟨hr, hrs⟩ := List.forall_mem_cons.mp h
    rw [List.map_cons, List.foldlM_cons, bind_eq_ok, sizes_cons]
    by_cases hname : r.head? = some name
    · constructor
      · rintro ⟨⟨o1, s1⟩, hrow, hrest⟩
        obtain ⟨hlength, rfl, b, hb, rfl⟩ := (scanRow_own hr hname).mp hrow
        obtain ⟨hothers, rfl, heq⟩ := (scan_selected hv hrs).mp hrest
        obtain rfl := Option.some.inj heq
        exact ⟨[], r, rs, rfl, List.forall_mem_cons.mpr ⟨hlength, fun r hr => (hothers r hr).1⟩,
          hname, fun r hr => (hothers r hr).2, hb, by omega⟩
      · rintro ⟨before, r', after, heq, hnine, hname', hothers, hvisit, rfl⟩
        obtain rfl : before = [] := by
          cases before with
          | nil => rfl
          | cons b before =>
            obtain rfl := (List.cons.inj heq).1
            exact absurd hname (hothers r List.mem_cons_self)
        obtain ⟨rfl, rfl⟩ := List.cons.inj heq
        obtain ⟨hlength, hnine⟩ := List.forall_mem_cons.mp hnine
        exact ⟨_, (scanRow_own hr hname).mpr ⟨hlength, rfl, a, hvisit, rfl⟩,
          (scan_selected hv hrs).mpr ⟨fun x hx => ⟨hnine x hx, hothers x hx⟩, by omega, rfl⟩⟩
    · constructor
      · rintro ⟨⟨o1, s1⟩, hrow, hrest⟩
        obtain ⟨hlength, rfl, rfl⟩ := (scanRow_other hr hname).mp hrow
        obtain ⟨before, r', after, rfl, hnine, hname', hothers, hvisit, rfl⟩ :=
          (scan_eq_ok hv hrs).mp hrest
        refine ⟨r :: before, r', after, rfl, List.forall_mem_cons.mpr ⟨hlength, hnine⟩, hname',
          List.forall_mem_cons.mpr ⟨hname, hothers⟩, ?_, by omega⟩
        rwa [sizes_cons, ← Nat.add_assoc]
      · rintro ⟨before, r', after, heq, hnine, hname', hothers, hvisit, rfl⟩
        cases before with
        | nil =>
          obtain rfl := (List.cons.inj heq).1
          exact absurd hname' hname
        | cons b before =>
          obtain ⟨rfl, rfl⟩ := List.cons.inj heq
          obtain ⟨hlength, hnine⟩ := List.forall_mem_cons.mp hnine
          rw [sizes_cons, ← Nat.add_assoc] at hvisit
          exact ⟨_, (scanRow_other hr hname).mpr ⟨hlength, rfl, rfl⟩,
            (scan_eq_ok hv hrs).mpr ⟨before, r', after, rfl, hnine, hname',
              fun x hx => hothers x (List.mem_cons_of_mem r hx), hvisit, by omega⟩⟩

/-- **Every selection finds a place.** -/
theorem select_eq_ok {encoding missing : String} {input : Bytes}
    (hv : ∀ o n fs a b, visit o n fs (some a) ≠ .ok b) (hend : endsWithNewline input = true) :
    select name visit encoding missing input = .ok a ↔
      ∃ p : Place name, input = bytesOf p.text ∧
        visit (sizes p.before) (size (row p.record)) p.record none = .ok a := by
  simp only [select, bind_eq_ok, okOr_eq_ok, utf8Text_eq_some]
  constructor
  · rintro ⟨text, rfl, ⟨o, s⟩, hscan, rfl⟩
    obtain ⟨rs, hrs, htext⟩ := exists_render (.inr (endsWithNewline_bytesOf.mp hend))
    rw [htext, lines_render hrs] at hscan
    obtain ⟨before, r, after, rfl, hnine, hname, hothers, hvisit, -⟩ :=
      (scan_eq_ok hv hrs).mp hscan
    rw [Nat.zero_add] at hvisit
    have hr := hrs r (by simp)
    have hlength := hnine r (by simp)
    match r, hlength with
    | first :: value :: rest, hlength =>
      obtain rfl : first = name := Option.some.inj hname
      have hmem : ∀ x ∈ before ++ after, x ∈ before ++ (first :: value :: rest) :: after := by
        intro x hx
        rw [List.mem_append] at hx
        rw [List.mem_append, List.mem_cons]
        tauto
      exact ⟨⟨before, value, rest, after, fun x hx => ⟨hrs x (hmem x hx), hnine x (hmem x hx),
        hothers x hx⟩, hr, by simpa using hlength⟩, by rw [htext]; rfl, hvisit⟩
  · rintro ⟨p, rfl, hvisit⟩
    have hrows : ∀ r ∈ p.before ++ p.record :: p.after, IsRow r ∧ r.length = 9 := by
      intro r hr
      rw [List.mem_append, List.mem_cons] at hr
      rcases hr with hr | rfl | hr
      · obtain ⟨h, hnine, -⟩ := p.others r (List.mem_append_left _ hr)
        exact ⟨h, hnine⟩
      · exact ⟨p.own, by rw [Place.record, List.length_cons, List.length_cons, p.columns]⟩
      · obtain ⟨h, hnine, -⟩ := p.others r (List.mem_append_right _ hr)
        exact ⟨h, hnine⟩
    refine ⟨String.ofList p.text, by rw [String.toList_ofList],
      (0 + sizes (p.before ++ p.record :: p.after), some a), ?_, rfl⟩
    rw [String.toList_ofList, Place.text, lines_render fun r hr => (hrows r hr).1]
    exact (scan_eq_ok hv fun r hr => (hrows r hr).1).mpr ⟨p.before, p.record, p.after, rfl,
      fun r hr => (hrows r hr).2, rfl, fun r hr => (p.others r hr).2.2, by rwa [Nat.zero_add], rfl⟩

end

/-! ## Seams -/

namespace Place

variable {name : List Char} (p : Place name)

theorem size_front : size p.front = sizes p.before + size name + 1 := by
  rw [front, size_append, size_append]
  rfl

theorem size_record : size (row p.record) = size name + 1 + size p.value + size p.policy := by
  rw [row_record, ← List.singleton_append, ← List.append_assoc, ← List.append_assoc, size_append,
    size_append, size_append]
  rfl

theorem bytes_text : bytesOf p.text =
    bytesOf p.front ++ (bytesOf p.value ++ (bytesOf p.policy ++ bytesOf p.back)) := by
  rw [text_eq, bytesOf_append, bytesOf_append, bytesOf_append]

/-- A file ends with its last row. -/
theorem endsWithNewline_text : endsWithNewline (bytesOf p.text) = true := by
  rw [endsWithNewline_bytesOf]
  exact getLast_render (by simp)

theorem text_ne_nil : bytesOf p.text ≠ [] := by
  intro h
  have hend := p.endsWithNewline_text
  rw [h] at hend
  cases hend

/-- **The same file with another password and another policy.** -/
def put (value : List Char) (rest : Record) (own : IsRow (name :: value :: rest))
    (columns : rest.length = 7) : Place name :=
  { p with value := value, rest := rest, own := own, columns := columns }

theorem plain_value {value : List Char} (h : ':' ∉ value ∧ '\n' ∉ value) :
    IsRow (name :: value :: p.rest) := by
  obtain ⟨hname, hrest⟩ := List.forall_mem_cons.mp p.own.plain
  obtain ⟨-, hrest⟩ := List.forall_mem_cons.mp hrest
  exact ⟨List.cons_ne_nil _ _,
    List.forall_mem_cons.mpr ⟨hname, List.forall_mem_cons.mpr ⟨h, hrest⟩⟩⟩

/-- The same file with another password. -/
def set (value : List Char) (h : ':' ∉ value ∧ '\n' ∉ value) : Place name :=
  p.put value p.rest (p.plain_value h) p.columns

theorem value_plain : ':' ∉ p.value ∧ '\n' ∉ p.value :=
  p.own.plain p.value (List.mem_cons_of_mem _ List.mem_cons_self)

theorem bytes_set {value : List Char} (h : ':' ∉ value ∧ '\n' ∉ value) :
    bytesOf (p.set value h).text =
      bytesOf p.front ++ (bytesOf value ++ (bytesOf p.policy ++ bytesOf p.back)) :=
  (p.set value h).bytes_text

end Place

/-! ## Locking and unlocking -/

section

variable {name : List Char} {input out : Bytes} {locked : Bool}

theorem lockVisit_some {o n : Nat} {fs : Record} {a b : Nat} :
    lockVisit name locked o n fs (some a) ≠ .ok b := by
  simp [lockVisit, refuseIf, refuse, bind, Except.bind]

/-- A credential that can be locked, or unlocked. -/
def Usable (value : List Char) : Bool → Prop
  | true => ∃ cs, value = '$' :: cs
  | false => ∃ cs, value = '!' :: '$' :: cs

theorem lockVisit_eq_ok {p : Place name} {o n a : Nat} :
    lockVisit name locked o n p.record none = .ok a ↔
      Usable p.value locked ∧ a = o + size name + 1 := by
  simp only [lockVisit, bind_eq_ok, refuseIf_eq_ok, expect_eq_ok, pure_eq_ok, Option.isSome_none,
    exists_const, Place.record, List.getElem?_cons_succ, List.getElem?_cons_zero,
    Option.some.injEq, exists_eq_left', true_and]
  rw [eq_comm (b := a)]
  refine and_congr_left fun _ => ?_
  cases hvalue : p.value with
  | nil => cases locked <;> simp [Usable, stripBang]
  | cons c cs =>
    by_cases hbang : c = '!'
    · subst hbang
      cases cs with
      | nil => cases locked <;> simp [Usable, stripBang]
      | cons d cs =>
        cases locked <;> simp [Usable, stripBang]
        rintro rfl
        decide
    · have hstrip : stripBang (c :: cs) = none := by
        unfold stripBang
        split
        · rename_i heq
          exact absurd (List.cons.inj heq).1 hbang
        · rfl
      cases locked <;> simp [Usable, hstrip, hbang]
      rintro rfl
      decide

/-- The input is complete when it is the text of a place. -/
theorem Place.complete (p : Place name) :
    ((bytesOf p.text).isEmpty || !endsWithNewline (bytesOf p.text)) = false := by
  rw [List.isEmpty_eq_false_iff.mpr p.text_ne_nil, p.endsWithNewline_text]
  rfl

theorem complete_iff : (input.isEmpty || !endsWithNewline input) = false ↔
    endsWithNewline input = true := by
  cases input with
  | nil => simp [endsWithNewline]
  | cons b bs => simp

/-- Writing a mark between two parts. -/
theorem lockWritten_true {x y : Bytes} :
    lockWritten (x ++ y) x.length true = granted ((x ++ [33]) ++ y) := by
  have hn : (x ++ y).length + 1 = x.length + (y.length + 1) := by
    rw [List.length_append]
    omega
  have hlast : ((x ++ [33]) ++ zeros y.length).length = (x ++ [33]).length + y.length := by
    rw [List.length_append, length_zeros]
  refine filled ?_ (by simp only [List.length_append, List.length_singleton]; omega)
  exact bind_eq_ok.mpr ⟨x, slice_prefix rfl, bind_eq_ok.mpr ⟨_, copyAt_first rfl hn,
    bind_eq_ok.mpr ⟨_, copyAt_next rfl rfl (Nat.add_comm _ _), bind_eq_ok.mpr
      ⟨y, slice_suffix rfl rfl, copyAt_last (by simp) hlast rfl⟩⟩⟩⟩

/-- Leaving out the byte between two parts. -/
theorem lockWritten_false {x y : Bytes} {b : UInt8} :
    lockWritten (x ++ b :: y) x.length false = granted (x ++ y) := by
  have hsuffix : slice (x ++ b :: y) (x.length + 1) (x ++ b :: y).length = .ok y := by
    rw [List.append_cons]
    exact slice_suffix (by simp) (by simp)
  have hlength : usizeSub (x ++ b :: y).length 1 = .ok (x.length + y.length) := by
    rw [usizeSub_eq (by rw [List.length_append, List.length_cons]; omega), List.length_append,
      List.length_cons]
    rfl
  have hlast : (x ++ zeros y.length).length = x.length + y.length := by
    rw [List.length_append, length_zeros]
  rw [lockWritten, if_neg Bool.false_ne_true, hlength]
  refine filled ?_ (by rw [List.length_append])
  exact bind_eq_ok.mpr ⟨x, slice_prefix rfl, bind_eq_ok.mpr ⟨_, copyAt_first rfl rfl,
    bind_eq_ok.mpr ⟨y, hsuffix, copyAt_last rfl hlast rfl⟩⟩⟩

/-- The selection in a file that is taken apart. -/
theorem select_place {α : Type} (visit : Nat → Nat → Record → Option α → Result α) {a : α}
    {encoding missing : String} (hv : ∀ o n fs a b, visit o n fs (some a) ≠ .ok b) (p : Place name)
    (h : visit (sizes p.before) (size (row p.record)) p.record none = .ok a) :
    select name visit encoding missing (bytesOf p.text) = .ok a :=
  (select_eq_ok hv p.endsWithNewline_text).mpr ⟨p, rfl, h⟩

theorem changedShadow_at (p : Place name) {offset : Nat} (h : lockVisit name locked
    (sizes p.before) (size (row p.record)) p.record none = .ok offset) :
    changedShadow (bytesOf p.text) name locked = lockWritten (bytesOf p.text) offset locked := by
  rw [changedShadow, p.complete,
    select_place (lockVisit name locked) (fun _ _ _ _ _ => lockVisit_some) p h]
  rfl

theorem changedShadow_place {out : Bytes} (h : changedShadow input name locked = .ok out) :
    ∃ p : Place name, input = bytesOf p.text ∧ Usable p.value locked := by
  simp only [changedShadow, bind_eq_ok, refuseIf_eq_ok, exists_const, complete_iff] at h
  obtain ⟨hend, offset, hselect, -⟩ := h
  obtain ⟨p, rfl, hvisit⟩ := (select_eq_ok (fun _ _ _ _ _ => lockVisit_some) hend).mp hselect
  exact ⟨p, rfl, (lockVisit_eq_ok.mp hvisit).1⟩

theorem front_pos (p : Place name) {x : Bytes} : 0 < (bytesOf p.front ++ x).length := by
  have hfront := p.size_front
  rw [size] at hfront
  rw [List.length_append]
  omega

/-- **Locking** puts a mark in front of the password. -/
theorem lock_at (p : Place name) (h : Usable p.value true) :
    changedShadow (bytesOf p.text) name true = granted (bytesOf p.front ++
      33 :: (bytesOf p.value ++ (bytesOf p.policy ++ bytesOf p.back))) := by
  have hvisit : lockVisit name true (sizes p.before) (size (row p.record)) p.record none =
      .ok (size p.front) := lockVisit_eq_ok.mpr ⟨h, p.size_front⟩
  rw [changedShadow_at p hvisit, p.bytes_text, List.append_cons]
  exact lockWritten_true

/-- **Unlocking** takes it away. -/
theorem unlock_at (p : Place name) {cs : List Char} (h : p.value = '!' :: '$' :: cs) :
    changedShadow (bytesOf p.text) name false = granted (bytesOf p.front ++
      (bytesOf ('$' :: cs) ++ (bytesOf p.policy ++ bytesOf p.back))) := by
  have hvisit : lockVisit name false (sizes p.before) (size (row p.record)) p.record none =
      .ok (size p.front) := lockVisit_eq_ok.mpr ⟨⟨cs, h⟩, p.size_front⟩
  have hbang : bytesOf ('!' :: '$' :: cs) = 33 :: bytesOf ('$' :: cs) :=
    bytesOf_cons (by decide) _
  rw [changedShadow_at p hvisit, p.bytes_text, h, hbang, List.cons_append]
  exact lockWritten_false

/-! ## Passwords -/

theorem passwordVisit_some {o n : Nat} {fs : Record} {a b : Nat × Nat × Bool} :
    passwordVisit name o n fs (some a) ≠ .ok b := by
  intro h
  simp only [passwordVisit, bind_eq_ok, refuseIf_eq_ok, Option.isSome_some, Bool.true_or,
    Bool.true_eq_false, false_and, exists_const, and_false] at h

/-- Whether a password carries the mark. -/
def marked (value : List Char) : Bool := value.head? == some '!'

/-- The password without the mark. -/
def bare (value : List Char) : List Char := (stripBang value).getD value

theorem marked_bare (value : List Char) :
    value = (if marked value then ['!'] else []) ++ bare value := by
  unfold marked bare
  cases value with
  | nil => rfl
  | cons c cs =>
    by_cases hbang : c = '!'
    · subst hbang
      rfl
    · have hstrip : stripBang (c :: cs) = none := by
        unfold stripBang
        split
        · rename_i heq
          exact absurd (List.cons.inj heq).1 hbang
        · rfl
      simp [hstrip, hbang]

theorem passwordVisit_eq_ok {p : Place name} {o n : Nat} {a : Nat × Nat × Bool} :
    passwordVisit name o n p.record none = .ok a ↔ (bare p.value).head? = some '$' ∧
      a = (o + size name + 1, o + size name + 1 + size p.value, marked p.value) := by
  simp only [passwordVisit, bind_eq_ok, refuseIf_eq_ok, expect_eq_ok, pure_eq_ok,
    Option.isSome_none, exists_const, Place.record, List.getElem?_cons_succ, List.getElem?_cons_zero,
    Option.some.injEq, exists_eq_left', Bool.false_or, bne_eq_false_iff_eq, eq_comm (b := a)]
  rfl

theorem passwordColumn_eq_ok {a : Nat × Nat × Bool} : passwordColumn input name = .ok a ↔
    ∃ p : Place name, input = bytesOf p.text ∧ (bare p.value).head? = some '$' ∧
      a = (size p.front, size p.front + size p.value, marked p.value) := by
  have hv : ∀ o n fs a b, passwordVisit name o n fs (some a) ≠ .ok b :=
    fun _ _ _ _ _ => passwordVisit_some
  have hplace : ∀ p : Place name, passwordVisit name (sizes p.before) (size (row p.record)) p.record
      none = .ok a ↔ (bare p.value).head? = some '$' ∧
        a = (size p.front, size p.front + size p.value, marked p.value) := fun p => by
    rw [passwordVisit_eq_ok, p.size_front]
  simp only [passwordColumn, bind_eq_ok, refuseIf_eq_ok, exists_const, complete_iff]
  constructor
  · rintro ⟨hend, hselect⟩
    obtain ⟨p, rfl, hvisit⟩ := (select_eq_ok hv hend).mp hselect
    exact ⟨p, rfl, (hplace p).mp hvisit⟩
  · rintro ⟨p, rfl, h⟩
    exact ⟨p.endsWithNewline_text, select_place _ hv p ((hplace p).mpr h)⟩

/-- The mark as bytes. -/
def mark (locked : Bool) : Bytes := if locked then [33] else []

theorem length_mark (locked : Bool) : (mark locked).length = locked.toNat := by
  cases locked <;> rfl

theorem bytesOf_value (value : List Char) :
    bytesOf value = mark (marked value) ++ bytesOf (bare value) := by
  have h := marked_bare value
  conv_lhs => rw [h]
  rw [bytesOf_append]
  congr 1
  unfold mark
  split <;> rfl

/-- What stands behind the mark. -/
theorem written_rest {w h z : Bytes} {n : Nat} {input : Bytes} {stop : Nat}
    (hn : n = h.length + z.length) (hslice : slice input stop input.length = .ok z) :
    (copyAt (w ++ zeros n) w.length (w.length + h.length) h >>= fun output =>
      slice input stop input.length >>= fun rest =>
        copyAt output (w.length + h.length) output.length rest) = .ok (w ++ (h ++ z)) := by
  have hlast : ((w ++ h) ++ zeros z.length).length = (w ++ h).length + z.length := by
    rw [List.length_append, length_zeros]
  rw [← List.append_assoc]
  exact bind_eq_ok.mpr ⟨_, copyAt_next rfl rfl hn, bind_eq_ok.mpr ⟨z, hslice,
    copyAt_last (by rw [List.length_append]) hlast rfl⟩⟩

/-- What is taken out of a file, and what stands behind it. -/
theorem taken_out {x y z : Bytes} :
    usizeSub (x.length + y.length) x.length = .ok y.length ∧
      usizeSub (x ++ (y ++ z)).length y.length = .ok (x.length + z.length) ∧
        slice (x ++ (y ++ z)) (x.length + y.length) (x ++ (y ++ z)).length = .ok z := by
  refine ⟨?_, ?_, ?_⟩
  · rw [usizeSub_eq (Nat.le_add_right _ _), Nat.add_sub_cancel_left]
  · rw [usizeSub_eq (by simp only [List.length_append]; omega)]
    simp only [List.length_append]
    congr 1
    omega
  · rw [← List.append_assoc]
    exact slice_suffix (by rw [List.length_append]) rfl

/-- Replacing a password between two parts. -/
theorem passwordWritten_eq {x y z h : Bytes} :
    passwordWritten (x ++ (y ++ z)) x.length (x.length + y.length) locked h =
      granted (x ++ (mark locked ++ (h ++ z))) := by
  obtain ⟨hstop, hcapacity, hslice⟩ := @taken_out x y z
  rw [passwordWritten, hstop]
  change (usizeSub (x ++ (y ++ z)).length y.length >>= _) = _
  rw [hcapacity]
  refine filled (bind_eq_ok.mpr ⟨x, slice_prefix rfl, ?_⟩)
    (by simp only [List.length_append, length_mark]; omega)
  cases locked with
  | true =>
    have hn : x.length + z.length + h.length + true.toNat =
        x.length + (1 + (h.length + z.length)) := by
      rw [Bool.toNat_true]
      omega
    have hrest := @written_rest (x ++ [33]) h z _ _ _ rfl hslice
    rw [List.length_append, List.append_assoc x [33] (h ++ z)] at hrest
    exact bind_eq_ok.mpr ⟨_, copyAt_first rfl hn, bind_eq_ok.mpr
      ⟨_, copyAt_next rfl rfl rfl, hrest⟩⟩
  | false =>
    have hn : x.length + z.length + h.length + false.toNat =
        x.length + (h.length + z.length) := by
      rw [Bool.toNat_false]
      omega
    exact bind_eq_ok.mpr ⟨_, copyAt_first rfl hn, written_rest rfl hslice⟩

/-- What `passwordColumn` finds in a file that is taken apart. -/
theorem passwordColumn_text (p : Place name) (h : (bare p.value).head? = some '$') :
    passwordColumn (bytesOf p.text) name =
      .ok (size p.front, size p.front + size p.value, marked p.value) :=
  passwordColumn_eq_ok.mpr ⟨p, rfl, h, rfl⟩

/-- The file with another hash behind the mark. -/
def Place.rehashed (p : Place name) (h : Bytes) : Bytes :=
  bytesOf p.front ++ (mark (marked p.value) ++ (h ++ (bytesOf p.policy ++ bytesOf p.back)))

theorem passwordWritten_text (p : Place name) (h : Bytes) : passwordWritten (bytesOf p.text)
    (size p.front) (size p.front + size p.value) (marked p.value) h = granted (p.rehashed h) := by
  rw [p.bytes_text]
  exact passwordWritten_eq

/-- **A new password** replaces the old one behind its mark. -/
theorem passwordShadow_eq_ok {hash : Hash} {a : Bytes × Bool} :
    passwordShadow input name hash = .ok a ↔ ∃ (p : Place name) (h : Bytes),
      input = bytesOf p.text ∧ (bare p.value).head? = some '$' ∧ hash.bytes = .ok h ∧
        (p.rehashed h).length ≤ maxBlob ∧ a = (p.rehashed h, marked p.value) := by
  simp only [passwordShadow, bind_eq_ok, pure_eq_ok]
  constructor
  · rintro ⟨column, hcolumn, h, hhash, out, hout, rfl⟩
    obtain ⟨p, rfl, hvalue, rfl⟩ := passwordColumn_eq_ok.mp hcolumn
    obtain ⟨-, hle, rfl⟩ := granted_eq_ok.mp ((passwordWritten_text p h).symm.trans hout)
    exact ⟨p, h, rfl, hvalue, hhash, hle, rfl⟩
  · rintro ⟨p, h, rfl, hvalue, hhash, hle, rfl⟩
    exact ⟨_, passwordColumn_text p hvalue, h, hhash, _, (passwordWritten_text p h).trans
      (granted_eq_ok.mpr ⟨front_pos p, hle, rfl⟩), rfl⟩

theorem changedElsewhere_eq_false {first : Bool} {before after a b c d : Bytes}
    {old new : Nat × Nat} (ha : slice before 0 old.1 = .ok a) (hb : slice after 0 new.1 = .ok b)
    (hc : slice before old.2 before.length = .ok c) (hd : slice after new.2 after.length = .ok d) :
    changedElsewhere first before after old new = .ok false ↔ first = false ∧ a = b ∧ c = d := by
  unfold changedElsewhere
  cases first with
  | true => simp [pure, Except.pure]
  | false =>
    rw [if_neg Bool.false_ne_true, ha, hb, hc, hd]
    by_cases hab : a = b <;> simp [hab, pure, Except.pure, bind, Except.bind]

/-! ## What the validator of a password change accepts -/

theorem slice_front (p : Place name) {n : Nat} (h : n = size p.front) :
    slice (bytesOf p.text) 0 n = .ok (bytesOf p.front) := by
  rw [p.bytes_text]
  exact slice_prefix h

theorem slice_behind (p : Place name) {n : Nat} (h : n = size p.front + size p.value) :
    slice (bytesOf p.text) n (bytesOf p.text).length =
      .ok (bytesOf p.policy ++ bytesOf p.back) := by
  rw [p.bytes_text, ← List.append_assoc]
  exact slice_suffix (by rw [h, List.length_append]; rfl) rfl

theorem slice_bare (p : Place name) {n m : Nat}
    (hn : n = size p.front + (marked p.value).toNat) (hm : m = size p.front + size p.value) :
    slice (bytesOf p.text) n m = .ok (bytesOf (bare p.value)) := by
  have hsize : size p.value = (marked p.value).toNat + size (bare p.value) := by
    rw [size, bytesOf_value, List.length_append, length_mark]
    rfl
  rw [p.bytes_text, bytesOf_value p.value, List.append_assoc, ← List.append_assoc]
  refine slice_append ?_ ?_
  · rw [hn, List.length_append, length_mark]
    rfl
  · rw [hm, hsize, List.length_append, length_mark, Nat.add_assoc]
    rfl

/-- An accepted hash with the mark of a row. -/
theorem marked_hash {cs : List Char} (hcs : ∀ c ∈ cs, c = '$' ∨ hashChar c = true) (b : Bool) :
    let value := (if b then ['!'] else []) ++ '$' :: cs
    (':' ∉ value ∧ '\n' ∉ value) ∧ marked value = b ∧ bare value = '$' :: cs ∧
      bytesOf value = mark b ++ bytesOf ('$' :: cs) := by
  obtain ⟨hcolon, hline, -⟩ := hash_plain hcs
  cases b with
  | true => exact ⟨by simp [hcolon, hline], rfl, rfl, bytesOf_cons (by decide) _⟩
  | false => exact ⟨by simp [hcolon, hline], rfl, rfl, rfl⟩

/-- **The file with an accepted hash** is that of a place. -/
theorem rehashed_place (p : Place name) {h : Bytes} {u : Unit} (hvalid : validateHash h = .ok u) :
    ∃ q : Place name, p.rehashed h = bytesOf q.text ∧ (bare q.value).head? = some '$' ∧
      marked q.value = marked p.value ∧ bytesOf (bare q.value) = h ∧ q.front = p.front ∧
        q.policy = p.policy ∧ q.back = p.back := by
  obtain ⟨cs, rfl, hcs, -⟩ := validateHash_text hvalid
  obtain ⟨hplain, hmarked, hbare, hbytes⟩ := marked_hash hcs (marked p.value)
  refine ⟨p.set _ hplain, ?_, ?_, hmarked, congrArg bytesOf hbare, rfl, rfl, rfl⟩
  · rw [p.bytes_set, hbytes, Place.rehashed]
    simp only [List.append_assoc]
  · exact congrArg List.head? hbare

theorem validatePasswordChange_eq_ok {before after : Bytes} {locked : Bool} :
    validatePasswordChange before after name = .ok locked ↔ ∃ (p : Place name) (h : Bytes),
      before = bytesOf p.text ∧ (bare p.value).head? = some '$' ∧ validateHash h = .ok () ∧
        after = p.rehashed h ∧ locked = marked p.value := by
  have hchanged : ∀ (p q : Place name), changedElsewhere
      (marked p.value != marked q.value || size p.front != size q.front)
      (bytesOf p.text) (bytesOf q.text) (size p.front, size p.front + size p.value)
      (size q.front, size q.front + size q.value) = .ok false ↔
        (marked p.value = marked q.value ∧ size p.front = size q.front) ∧
          bytesOf p.front = bytesOf q.front ∧
            bytesOf p.policy ++ bytesOf p.back = bytesOf q.policy ++ bytesOf q.back := by
    intro p q
    rw [changedElsewhere_eq_false (slice_front p rfl) (slice_front q rfl) (slice_behind p rfl)
      (slice_behind q rfl)]
    simp only [Bool.or_eq_false_iff, bne_eq_false_iff_eq]
  simp only [validatePasswordChange, bind_eq_ok, refuseIf_eq_ok, pure_eq_ok, exists_const]
  constructor
  · rintro ⟨_, hbefore, _, hafter, changed, hc, rfl, crypt, hcrypt, _, hvalid, rfl⟩
    obtain ⟨p, rfl, hp, rfl⟩ := passwordColumn_eq_ok.mp hbefore
    obtain ⟨q, rfl, hq, rfl⟩ := passwordColumn_eq_ok.mp hafter
    obtain ⟨⟨hmarked, hfront⟩, hfirst, hrest⟩ := (hchanged p q).mp hc
    rw [slice_bare q rfl rfl] at hcrypt
    obtain rfl := Except.ok.inj hcrypt
    refine ⟨p, _, rfl, hp, hvalid, ?_, hmarked.symm⟩
    rw [q.bytes_text, bytesOf_value q.value, Place.rehashed, hmarked, hfirst, hrest,
      List.append_assoc]
  · rintro ⟨p, h, rfl, hp, hvalid, rfl, rfl⟩
    obtain ⟨q, hq, hcrypt, hmarked, hbare, hfront, hpolicy, hback⟩ := rehashed_place p hvalid
    rw [hq]
    refine ⟨_, passwordColumn_text p hp, _, passwordColumn_text q hcrypt, false, ?_, rfl, h, ?_, (),
      hvalid, hmarked⟩
    · exact (hchanged p q).mpr ⟨⟨hmarked.symm, by rw [hfront]⟩, by rw [hfront],
        by rw [hpolicy, hback]⟩
    · rw [slice_bare q rfl rfl, hbare]

/-! ## Aging -/

/-- Replacing the rest of a row between two parts. -/
theorem agedWritten_eq {x y z h g : Bytes} :
    agedWritten (x ++ (y ++ z)) x.length (x.length + y.length) h g =
      granted (x ++ (h ++ (g ++ z))) := by
  obtain ⟨hstop, hcapacity, hslice⟩ := @taken_out x y z
  have hn : x.length + z.length + h.length + g.length =
      x.length + (h.length + (g.length + z.length)) := by omega
  have hrest := @written_rest (x ++ h) g z _ _ _ rfl hslice
  rw [List.length_append, List.append_assoc x h (g ++ z)] at hrest
  rw [agedWritten, hstop]
  change (usizeSub (x ++ (y ++ z)).length y.length >>= _) = _
  rw [hcapacity]
  exact filled (bind_eq_ok.mpr ⟨x, slice_prefix rfl, bind_eq_ok.mpr ⟨_, copyAt_first rfl hn,
    bind_eq_ok.mpr ⟨_, copyAt_next rfl rfl rfl, hrest⟩⟩⟩)
    (by simp only [List.length_append]; omega)

/-- The file with another hash and a new policy. -/
def Place.aged (p : Place name) (h : Bytes) (day : Nat) : Bytes :=
  bytesOf p.front ++ (h ++ (bytesOf (ageText day) ++ bytesOf p.back))

theorem agedWritten_text (p : Place name) (h : Bytes) (day : Nat) :
    agedWritten (bytesOf p.text) (size p.front) (size p.front + (size p.value + size p.policy)) h
      (bytesOf (ageText day)) = granted (p.aged h day) := by
  have hstop : size p.front + (size p.value + size p.policy) =
      (bytesOf p.front).length + (bytesOf p.value ++ bytesOf p.policy).length := by
    rw [List.length_append]
    rfl
  rw [p.bytes_text, ← List.append_assoc (bytesOf p.value), hstop]
  exact agedWritten_eq

/-- The fields of a policy that starts on a day. -/
def ageFields (day : Nat) : Record :=
  [Nat.toDigits 10 day, ['0'], ['9', '0'], ['7'], [], [], []]

theorem policy_ageFields (day : Nat) : ':' :: joined (ageFields day) ++ ['\n'] = ageText day := by
  simp [ageFields, ageText, joined, List.intercalate]

theorem toDigits_plain {n : Nat} : ':' ∉ Nat.toDigits 10 n ∧ '\n' ∉ Nat.toDigits 10 n := by
  constructor
  · intro h
    exact absurd (Nat.isDigit_of_mem_toDigits (by decide) (by decide) h) (by decide)
  · intro h
    exact absurd (Nat.isDigit_of_mem_toDigits (by decide) (by decide) h) (by decide)

theorem isRow_aged {value : List Char} {day : Nat} (hname : ':' ∉ name ∧ '\n' ∉ name)
    (h : ':' ∉ value ∧ '\n' ∉ value) : IsRow (name :: value :: ageFields day) := by
  refine ⟨List.cons_ne_nil _ _, ?_⟩
  simp only [ageFields, List.mem_cons, List.not_mem_nil, or_false, forall_eq_or_imp, forall_eq]
  exact ⟨hname, h, toDigits_plain, by decide, by decide, by decide, by decide, by decide, by decide⟩

/-- **The aged file with a plain hash** is that of a place. -/
theorem aged_place (p : Place name) {value : List Char} (day : Nat)
    (h : ':' ∉ value ∧ '\n' ∉ value) :
    ∃ q : Place name, p.aged (bytesOf value) day = bytesOf q.text ∧ q.before = p.before ∧
      q.value = value ∧ q.rest = ageFields day ∧ q.after = p.after := by
  have hname := p.own.plain name List.mem_cons_self
  refine ⟨p.put value (ageFields day) (isRow_aged hname h) rfl, ?_, rfl, rfl, rfl, rfl⟩
  rw [Place.bytes_text, Place.aged, ← policy_ageFields]
  rfl

theorem activationVisit_some {o n : Nat} {fs : Record} {a b : Nat × Nat × List Char} :
    activationVisit name o n fs (some a) ≠ .ok b := by
  intro h
  simp only [activationVisit, bind_eq_ok, refuseIf_eq_ok, Option.isSome_some, Bool.true_eq_false,
    false_and, exists_const] at h

theorem size_stop (p : Place name) : sizes p.before + size (row p.record) =
    size p.front + (size p.value + size p.policy) := by
  rw [p.size_record, p.size_front]
  omega

/-- **Activation** takes the mark away and starts a policy. -/
theorem activationShadow_eq_ok {day : Nat} (h : activationShadow input name day = .ok out) :
    ∃ p : Place name, input = bytesOf p.text ∧ validateHash (bytesOf (bare p.value)) = .ok () ∧
      out = p.aged (bytesOf (bare p.value)) day := by
  simp only [activationShadow, bind_eq_ok, refuseIf_eq_ok, exists_const, Bool.or_eq_false_iff,
    Bool.not_eq_false'] at h
  obtain ⟨⟨-, hend⟩, _, hselect, hwritten⟩ := h
  obtain ⟨p, rfl, hvisit⟩ :=
    (select_eq_ok (fun _ _ _ _ _ => activationVisit_some) hend).mp hselect
  simp only [activationVisit, bind_eq_ok, refuseIf_eq_ok, expect_eq_ok, pure_eq_ok,
    Option.isSome_none, exists_const, Place.record, List.getElem?_cons_succ,
    List.getElem?_cons_zero, Option.some.injEq, exists_eq_left', true_and] at hvisit
  obtain ⟨_, hvalid, _, -, -, rfl⟩ := hvisit
  have haged := agedWritten_text p (bytesOf (bare p.value)) day
  rw [← size_stop p, p.size_front] at haged
  exact ⟨p, rfl, hvalid, (granted_eq_ok.mp (haged.symm.trans hwritten)).2.2⟩

theorem recoveryVisit_some {ambiguous : String} {o n : Nat} {fs : Record} {a b : Nat × Nat} :
    recoveryVisit ambiguous name o n fs (some a) ≠ .ok b := by
  intro h
  simp only [recoveryVisit, bind_eq_ok, refuseIf_eq_ok, Option.isSome_some, Bool.true_eq_false,
    false_and, exists_const] at h

/-- What both loops of a recovery find. -/
theorem recovery_select {ambiguous encoding missing : String} {a : Nat × Nat} :
    (endsWithNewline input = true ∧
      select name (recoveryVisit ambiguous name) encoding missing input = .ok a) ↔
    ∃ p : Place name, input = bytesOf p.text ∧
      a = (size p.front, size p.front + (size p.value + size p.policy)) := by
  have hv : ∀ o n fs a b, recoveryVisit ambiguous name o n fs (some a) ≠ .ok b :=
    fun _ _ _ _ _ => recoveryVisit_some
  have hplace : ∀ p : Place name, recoveryVisit ambiguous name (sizes p.before)
      (size (row p.record)) p.record none = .ok a ↔
        a = (size p.front, size p.front + (size p.value + size p.policy)) := by
    intro p
    simp only [recoveryVisit, bind_eq_ok, refuseIf_eq_ok, Option.isSome_none, exists_const,
      pure_eq_ok, true_and, ← p.size_front, size_stop p, eq_comm (b := a)]
  constructor
  · rintro ⟨hend, hselect⟩
    obtain ⟨p, rfl, hvisit⟩ := (select_eq_ok hv hend).mp hselect
    exact ⟨p, rfl, (hplace p).mp hvisit⟩
  · rintro ⟨p, rfl, h⟩
    exact ⟨p.endsWithNewline_text, select_place _ hv p ((hplace p).mpr h)⟩

/-- **A recovery** replaces the password and starts a policy. -/
theorem recoveredShadow_eq_ok {password : Hash} {day : Nat} :
    recoveredShadow input name password day = .ok out ↔ (day ≠ 0 ∧ day ≤ 47483) ∧
      ∃ (p : Place name) (h : Bytes), input = bytesOf p.text ∧ password.bytes = .ok h ∧
        (p.aged h day).length ≤ maxBlob ∧ out = p.aged h day := by
  simp only [recoveredShadow, bind_eq_ok, refuseIf_eq_ok, exists_const, Bool.or_eq_false_iff,
    beq_eq_false_iff_ne, decide_eq_false_iff_not, not_lt, gt_iff_lt, Bool.not_eq_false', and_assoc]
  refine and_congr_right fun _ => and_congr_right fun _ => ?_
  constructor
  · rintro ⟨hend, _, hselect, h, hhash, hwritten⟩
    obtain ⟨p, rfl, rfl⟩ := recovery_select.mp ⟨hend, hselect⟩
    exact ⟨p, h, rfl, hhash, (granted_eq_ok.mp ((agedWritten_text p h day).symm.trans hwritten)).2⟩
  · rintro ⟨p, h, rfl, hhash, hle, rfl⟩
    obtain ⟨hend, hselect⟩ := recovery_select.mpr ⟨p, rfl, rfl⟩
    exact ⟨hend, _, hselect, h, hhash, (agedWritten_text p h day).trans
      (granted_eq_ok.mpr ⟨front_pos p, hle, rfl⟩)⟩

theorem recoveryRows_eq_ok {a : Nat × Nat} : recoveryRows input name = .ok a ↔
    ∃ p : Place name, input = bytesOf p.text ∧
      a = (size p.front, size p.front + (size p.value + size p.policy)) := by
  simp only [recoveryRows, bind_eq_ok, refuseIf_eq_ok, exists_const, Bool.not_eq_false']
  exact recovery_select

/-- A colon in the bytes is one of the text. -/
theorem colon_bytesOf {cs : List Char} (h : ':' ∉ cs) : 58 ∉ bytesOf cs := by
  intro hmem
  obtain ⟨c, hc, hbyte⟩ := List.mem_flatMap.mp hmem
  by_cases hascii : c.toNat < 128
  · rw [utf8EncodeChar_ascii hascii, List.mem_singleton] at hbyte
    have hn := congrArg UInt8.toNat hbyte
    rw [UInt8.toNat_ofNat', Nat.mod_eq_of_lt (by omega)] at hn
    obtain rfl : ':' = c := Char.toNat_inj.mp hn
    exact h hc
  · exact absurd (utf8EncodeChar_high (Nat.not_lt.mp hascii) _ hbyte) (by decide)

theorem findIdx_colon {x y : Bytes} (h : 58 ∉ x) :
    (x ++ 58 :: y).findIdx? (· == 58) = some x.length := by
  rw [List.findIdx?_append, List.findIdx?_eq_none_iff.mpr fun b hb => ?_, List.findIdx?_cons]
  · simp
  · rw [beq_eq_false_iff_ne]
    rintro rfl
    exact h hb

theorem slice_row (p : Place name) : slice (bytesOf p.text) (size p.front)
    (size p.front + (size p.value + size p.policy)) =
      .ok (bytesOf p.value ++ bytesOf p.policy) := by
  rw [p.bytes_text, ← List.append_assoc (bytesOf p.value)]
  exact slice_append rfl (by rw [List.length_append]; rfl)

theorem slice_back (p : Place name) : slice (bytesOf p.text)
    (size p.front + (size p.value + size p.policy)) (bytesOf p.text).length =
      .ok (bytesOf p.back) := by
  rw [p.bytes_text, ← List.append_assoc (bytesOf p.value), ← List.append_assoc]
  exact slice_suffix (by rw [List.length_append, List.length_append]; rfl) rfl

/-- The row is read up to its first colon. -/
theorem row_parts (p : Place name) :
    (bytesOf p.value ++ bytesOf p.policy).findIdx? (· == 58) = some (size p.value) ∧
      slice (bytesOf p.value ++ bytesOf p.policy) 0 (size p.value) = .ok (bytesOf p.value) ∧
      slice (bytesOf p.value ++ bytesOf p.policy) (size p.value)
        (bytesOf p.value ++ bytesOf p.policy).length = .ok (bytesOf p.policy) := by
  have hpolicy : bytesOf p.policy = 58 :: bytesOf (joined p.rest ++ ['\n']) :=
    bytesOf_cons (by decide) _
  refine ⟨?_, slice_prefix rfl, slice_suffix rfl rfl⟩
  rw [hpolicy]
  exact findIdx_colon (colon_bytesOf p.value_plain.1)

theorem validateRecoveredShadow_eq_ok {before after : Bytes} {day : Nat} {u : Unit} :
    validateRecoveredShadow before after name day = .ok u ↔ ∃ (p : Place name) (h : Bytes),
      before = bytesOf p.text ∧ validateHash h = .ok () ∧ after = p.aged h day := by
  have hchanged : ∀ (p q : Place name), changedElsewhere (size p.front != size q.front)
      (bytesOf p.text) (bytesOf q.text)
      (size p.front, size p.front + (size p.value + size p.policy))
      (size q.front, size q.front + (size q.value + size q.policy)) = .ok false ↔
        size p.front = size q.front ∧ bytesOf p.front = bytesOf q.front ∧
          bytesOf p.back = bytesOf q.back := by
    intro p q
    rw [changedElsewhere_eq_false (slice_front p rfl) (slice_front q rfl) (slice_back p)
      (slice_back q), bne_eq_false_iff_eq]
  simp only [validateRecoveredShadow, bind_eq_ok, refuseIf_eq_ok, okOr_eq_ok, exists_const]
  constructor
  · rintro ⟨_, hbefore, _, hafter, changed, hc, rfl, r, hr, stop, hstop, crypt, hcrypt, _, hvalid,
      age, hage, hday⟩
    obtain ⟨p, rfl, rfl⟩ := recoveryRows_eq_ok.mp hbefore
    obtain ⟨q, rfl, rfl⟩ := recoveryRows_eq_ok.mp hafter
    obtain ⟨hsize, hfront, hback⟩ := (hchanged p q).mp hc
    obtain rfl := Except.ok.inj ((slice_row q).symm.trans hr)
    obtain ⟨hfind, hfirst, hrest⟩ := row_parts q
    obtain rfl := Option.some.inj (hfind.symm.trans hstop)
    obtain rfl := Except.ok.inj (hfirst.symm.trans hcrypt)
    obtain rfl := Except.ok.inj (hrest.symm.trans hage)
    refine ⟨p, _, rfl, hvalid, ?_⟩
    rw [q.bytes_text, Place.aged, hfront, hback, bne_eq_false_iff_eq.mp hday]
  · rintro ⟨p, h, rfl, hvalid, rfl⟩
    obtain ⟨cs, rfl, hcs, -⟩ := validateHash_text hvalid
    obtain ⟨hcolon, hline, -⟩ := hash_plain (List.forall_mem_cons.mpr ⟨.inl rfl, hcs⟩)
    obtain ⟨q, hq, hbefore, hvalue, hrest, hafter⟩ := aged_place p day ⟨hcolon, hline⟩
    have hpolicy : q.policy = ageText day := by
      rw [Place.policy, hrest, policy_ageFields]
    obtain ⟨hfind, hfirst, hlast⟩ := row_parts q
    rw [hq]
    refine ⟨_, recoveryRows_eq_ok.mpr ⟨p, rfl, rfl⟩, _, recoveryRows_eq_ok.mpr ⟨q, rfl, rfl⟩,
      false, (hchanged p q).mpr ?_, rfl, _, slice_row q, _, hfind, _, hfirst, (), ?_, _, hlast, ?_⟩
    · rw [Place.front, Place.front, Place.back, Place.back, hbefore, hafter]
      exact ⟨rfl, rfl, rfl⟩
    · rwa [hvalue]
    · rw [hpolicy]
      exact bne_self_eq_false _

end

end LumaOS.Accounts
