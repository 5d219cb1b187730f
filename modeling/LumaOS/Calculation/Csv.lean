import LumaOS.Text.Rows

/-!
# The CSV of an invoice calculation

`parse_csv` of `calculation.rs`, with `finish_field` and `finish_row`. `normalize` is
`source.replace("\r\n", "\n")`; the automaton then reads one character at a time.

* `Rendering inner ending rows t` says that `t` writes the table `rows`: bare fields hold no comma,
  quote or newline, in quoted ones a quote is doubled, rows end as `ending` allows and the last one
  need not end. `inner` relates the text between two quotes to what is written there.
* `run_rendering` reads a rendering, `Reads` is the invariant of the automaton: what it has read
  renders what it holds. `parse_csv_inverts` combines them.
-/

namespace LumaOS.Calculation

open LumaOS.Base LumaOS.Text LumaOS.Json

def maxSourceBytes : Nat := 1024 * 1024
/-- Header plus at most 10,000 invoices. -/
def maxRows : Nat := 10001
def maxColumns : Nat := 32
def maxFieldBytes : Nat := 4096

inductive FieldState where
  | start
  | unquoted
  | quoted
  | afterQuote
deriving DecidableEq, Repr

/-- The variables of the loop of `parse_csv`. -/
structure Scan where
  rows : List (List String)
  row : List String
  field : String
  state : FieldState
deriving DecidableEq, Repr

def Scan.init : Scan := ⟨[], [], "", .start⟩

namespace Scan

def finishField (s : Scan) : Result Scan := do
  refuseIf (s.row.length ≥ maxColumns) "invoice CSV has too many columns"
  pure { s with row := s.row ++ [s.field], field := "" }

def finishRow (s : Scan) : Result Scan := do
  refuseIf (s.rows.length ≥ maxRows || (s.row.length == 1 && s.row.head?.any String.isEmpty))
    "invoice CSV has an empty row or too many rows"
  pure { s with rows := s.rows ++ [s.row], row := [] }

/-- The `match (state, ch)` of the loop. -/
def transition (s : Scan) (ch : Char) : Result Scan :=
  match s.state, ch with
  | .start, '"' => pure { s with state := .quoted }
  | .quoted, '"' => pure { s with state := .afterQuote }
  | .afterQuote, '"' => pure { s with field := s.field.push '"', state := .quoted }
  | .quoted, _ => pure { s with field := s.field.push ch }
  | .start, ',' | .unquoted, ',' | .afterQuote, ',' => do
    let s ← s.finishField
    pure { s with state := .start }
  | .start, '\n' | .unquoted, '\n' | .afterQuote, '\n' => do
    let s ← s.finishField
    let s ← s.finishRow
    pure { s with state := .start }
  | .start, _ => pure { s with field := s.field.push ch, state := .unquoted }
  | .unquoted, '"' | .afterQuote, _ => refuse "malformed invoice CSV quoting"
  | .unquoted, _ => pure { s with field := s.field.push ch }

/-- One turn of the loop. -/
def step (s : Scan) (ch : Char) : Result Scan := do
  let s ← s.transition ch
  refuseIf (s.field.utf8ByteSize > maxFieldBytes) "invoice CSV field exceeds bound"
  pure s

/-- What stands behind the loop. -/
def finish (s : Scan) : Result (List (List String)) := do
  refuseIf (s.state == .quoted) "unterminated invoice CSV quote"
  let s ← if !s.row.isEmpty || !s.field.isEmpty || s.state != .start then do
      let s ← s.finishField
      s.finishRow
    else pure s
  refuseIf (s.rows.length < 2) "invoice CSV has no records"
  pure s.rows

end Scan

/-- `source.replace("\r\n", "\n")`. -/
def normalize : List Char → List Char
  | '\r' :: '\n' :: rest => '\n' :: normalize rest
  | c :: rest => c :: normalize rest
  | [] => []

def parseCsv (bytes : Bytes) : Result (List (List String)) := do
  refuseIf (bytes.isEmpty || bytes.length > maxSourceBytes) "empty or oversized invoice CSV"
  let source ← okOr (utf8Text bytes) "invalid utf-8 sequence"
  refuseIf (source.toList.contains '\x00') "invoice CSV contains a NUL byte"
  let normalized := normalize source.toList
  refuseIf (normalized.contains '\r') "invoice CSV contains a bare carriage return"
  let s ← normalized.foldlM Scan.step Scan.init
  s.finish

/-! ## What a table is written as -/

/-- A field that has to be quoted. -/
def special (c : Char) : Bool := c == ',' || c == '"' || c == '\n'

/-- Inner quotes are doubled. -/
def doubled (c : Char) : List Char := if c = '"' then ['"', '"'] else [c]

/-- A row that the parser returns. -/
structure Fits (row : List String) : Prop where
  nonempty : row ≠ []
  columns : row.length ≤ maxColumns
  line : row ≠ [""]
  fields : ∀ f ∈ row, f.utf8ByteSize ≤ maxFieldBytes

/-- A table that the parser returns. -/
structure Admissible (rows : List (List String)) : Prop where
  records : 2 ≤ rows.length
  few : rows.length ≤ maxRows
  fits : ∀ row ∈ rows, Fits row
  plain : ∀ row ∈ rows, ∀ f ∈ row, '\x00' ∉ f.toList ∧ '\r' ∉ f.toList

section Rendering

variable (inner : List Char → List Char → Prop) (ending : List Char → Prop)

/-- A field is written as it is or in quotes. -/
inductive FieldText (f : String) : List Char → Prop
  | bare (h : ∀ c ∈ f.toList, special c = false) : FieldText f f.toList
  | quoted (t : List Char) (h : inner (f.toList.flatMap doubled) t) : FieldText f ('"' :: t ++ ['"'])

/-- Fields with a comma behind each. -/
inductive Cells : List String → List Char → Prop
  | nil : Cells [] []
  | cons {f fs t u} (h : FieldText inner f t) (rest : Cells fs u) : Cells (f :: fs) (t ++ ',' :: u)

/-- A row without its ending. -/
inductive RowText : List String → List Char → Prop
  | mk {fs f t u} (h : Cells inner fs t) (last : FieldText inner f u) : RowText (fs ++ [f]) (t ++ u)

/-- Rows with an ending behind each. -/
inductive Lines : List (List String) → List Char → Prop
  | nil : Lines [] []
  | cons {row rows t e u} (h : RowText inner row t) (he : ending e) (rest : Lines rows u) :
      Lines (row :: rows) (t ++ (e ++ u))

/-- **The text writes the table.** -/
inductive Rendering : List (List String) → List Char → Prop
  | ended {rows t} (h : Lines inner ending rows t) : Rendering rows t
  | unended {rows row t u} (h : Lines inner ending rows t) (last : RowText inner row u) :
      Rendering (rows ++ [row]) (t ++ u)

end Rendering

/-- LF or CRLF. -/
def LineEnding (e : List Char) : Prop := e = ['\n'] ∨ e = ['\r', '\n']

/-- A text with some of its newlines written as CRLF. -/
inductive Spelled : List Char → List Char → Prop
  | nil : Spelled [] []
  | same (c : Char) {n t} (h : Spelled n t) : Spelled (c :: n) (c :: t)
  | crlf {n t} (h : Spelled n t) : Spelled ('\n' :: n) ('\r' :: '\n' :: t)

/-! ## Line endings -/

section

variable {n m t u : List Char}

theorem Spelled.refl : ∀ n, Spelled n n
  | [] => .nil
  | c :: n => .same c (Spelled.refl n)

theorem Spelled.append (h : Spelled n t) (h' : Spelled m u) : Spelled (n ++ m) (t ++ u) := by
  induction h with
  | nil => exact h'
  | same c _ ih => exact .same c ih
  | crlf _ ih => exact .crlf ih

theorem Spelled.split : ∀ {n t : List Char}, Spelled (n ++ m) t →
    ∃ a b, t = a ++ b ∧ Spelled n a ∧ Spelled m b := by
  intro n
  induction n with
  | nil => exact fun h => ⟨[], _, rfl, .nil, h⟩
  | cons c n ih =>
    intro t h
    cases h with
    | same _ h =>
      obtain ⟨a, b, rfl, ha, hb⟩ := ih h
      exact ⟨c :: a, b, rfl, .same c ha, hb⟩
    | crlf h =>
      obtain ⟨a, b, rfl, ha, hb⟩ := ih h
      exact ⟨'\r' :: '\n' :: a, b, rfl, .crlf ha, hb⟩

/-- Nothing changes where no newline stands. -/
theorem Spelled.eq (h : Spelled n t) (hn : '\n' ∉ n) : t = n := by
  induction h with
  | nil => rfl
  | same c _ ih => rw [ih fun h => hn (List.mem_cons_of_mem c h)]
  | crlf => exact absurd List.mem_cons_self hn

theorem spelled_newline : Spelled ['\n'] t ↔ LineEnding t := by
  constructor
  · intro h
    cases h with
    | same _ h =>
      cases h
      exact .inl rfl
    | crlf h =>
      cases h
      exact .inr rfl
  · rintro (rfl | rfl)
    · exact .refl _
    · exact .crlf .nil

theorem normalize_spelled : ∀ t, '\r' ∉ normalize t → Spelled (normalize t) t := by
  intro t
  fun_induction normalize t with
  | case1 rest ih => exact fun h => .crlf (ih fun hr => h (List.mem_cons_of_mem _ hr))
  | case2 c rest _ ih => exact fun h => .same c (ih fun hr => h (List.mem_cons_of_mem _ hr))
  | case3 => exact fun _ => .nil

theorem Spelled.normalize (h : Spelled n t) (hn : '\r' ∉ n) : normalize t = n := by
  induction h with
  | nil => rfl
  | same c _ ih =>
    rw [Calculation.normalize, ih (List.not_mem_of_not_mem_cons hn)]
    rintro _ rfl
    exact absurd rfl (List.ne_of_not_mem_cons hn)
  | crlf _ ih => rw [Calculation.normalize, ih (List.not_mem_of_not_mem_cons hn)]

end

section

variable {inner : List Char → List Char → Prop} {rows : List (List String)} {row fs : List String}
  {f : String} {n t : List Char}

/-- A line of the normalised text ends here. -/
def Newline (e : List Char) : Prop := e = ['\n']

theorem newline_not_mem (h : ∀ c ∈ f.toList, special c = false) : '\n' ∉ f.toList :=
  fun hmem => Bool.noConfusion (h _ hmem)

theorem FieldText.unspelled (hinner : ∀ a b, inner a b → Spelled a b) (h : FieldText inner f t) :
    ∃ n, FieldText Eq f n ∧ Spelled n t := by
  cases h with
  | bare h => exact ⟨_, .bare h, .refl _⟩
  | quoted t h => exact ⟨_, .quoted _ rfl, .same '"' ((hinner _ _ h).append (.refl _))⟩

theorem FieldText.spelled (h : FieldText Eq f n) (hs : Spelled n t) : FieldText Spelled f t := by
  cases h with
  | bare h =>
    rw [hs.eq (newline_not_mem h)]
    exact .bare h
  | quoted _ h =>
    subst h
    cases hs with
    | same _ hs =>
      obtain ⟨a, b, rfl, ha, hb⟩ := hs.split
      rw [hb.eq (by decide)]
      exact .quoted a ha

theorem Cells.unspelled (hinner : ∀ a b, inner a b → Spelled a b) (h : Cells inner fs t) :
    ∃ n, Cells Eq fs n ∧ Spelled n t := by
  induction h with
  | nil => exact ⟨_, .nil, .nil⟩
  | cons h _ ih =>
    obtain ⟨a, ha, hat⟩ := h.unspelled hinner
    obtain ⟨b, hb, hbt⟩ := ih
    exact ⟨_, .cons ha hb, hat.append (.same ',' hbt)⟩

theorem Cells.spelled (h : Cells Eq fs n) (hs : Spelled n t) : Cells Spelled fs t := by
  induction h generalizing t with
  | nil =>
    cases hs
    exact .nil
  | cons h _ ih =>
    obtain ⟨a, b, rfl, ha, hb⟩ := hs.split
    cases hb with
    | same _ hb => exact .cons (h.spelled ha) (ih hb)

theorem RowText.unspelled (hinner : ∀ a b, inner a b → Spelled a b) (h : RowText inner row t) :
    ∃ n, RowText Eq row n ∧ Spelled n t := by
  cases h with
  | mk h last =>
    obtain ⟨a, ha, hat⟩ := h.unspelled hinner
    obtain ⟨b, hb, hbt⟩ := last.unspelled hinner
    exact ⟨_, .mk ha hb, hat.append hbt⟩

theorem RowText.spelled (h : RowText Eq row n) (hs : Spelled n t) : RowText Spelled row t := by
  cases h with
  | mk h last =>
    obtain ⟨a, b, rfl, ha, hb⟩ := hs.split
    exact .mk (h.spelled ha) (last.spelled hb)

theorem Lines.unspelled (hinner : ∀ a b, inner a b → Spelled a b)
    (h : Lines inner LineEnding rows t) : ∃ n, Lines Eq Newline rows n ∧ Spelled n t := by
  induction h with
  | nil => exact ⟨_, .nil, .nil⟩
  | cons h he _ ih =>
    obtain ⟨a, ha, hat⟩ := h.unspelled hinner
    obtain ⟨b, hb, hbt⟩ := ih
    exact ⟨_, .cons ha rfl hb, hat.append ((spelled_newline.mpr he).append hbt)⟩

theorem Lines.spelled (h : Lines Eq Newline rows n) (hs : Spelled n t) :
    Lines Spelled LineEnding rows t := by
  induction h generalizing t with
  | nil =>
    cases hs
    exact .nil
  | cons h he _ ih =>
    subst he
    obtain ⟨a, b, rfl, ha, hb⟩ := hs.split
    obtain ⟨e, d, rfl, he, hd⟩ := hb.split
    exact .cons (h.spelled ha) (spelled_newline.mp he) (ih hd)

theorem Rendering.unspelled (hinner : ∀ a b, inner a b → Spelled a b)
    (h : Rendering inner LineEnding rows t) : ∃ n, Rendering Eq Newline rows n ∧ Spelled n t := by
  cases h with
  | ended h =>
    obtain ⟨a, ha, hat⟩ := h.unspelled hinner
    exact ⟨a, .ended ha, hat⟩
  | unended h last =>
    obtain ⟨a, ha, hat⟩ := h.unspelled hinner
    obtain ⟨b, hb, hbt⟩ := last.unspelled hinner
    exact ⟨_, .unended ha hb, hat.append hbt⟩

theorem Rendering.spelled (h : Rendering Eq Newline rows n) (hs : Spelled n t) :
    Rendering Spelled LineEnding rows t := by
  cases h with
  | ended h => exact .ended (h.spelled hs)
  | unended h last =>
    obtain ⟨a, b, rfl, ha, hb⟩ := hs.split
    exact .unended (h.spelled ha) (last.spelled hb)

end

/-! ## One character -/

namespace Scan

variable {rows : List (List String)} {row : List String} {field : String} {s s' : Scan} {c : Char}

theorem finishField_eq_ok :
    s.finishField = .ok s' ↔
      s.row.length < maxColumns ∧ s' = { s with row := s.row ++ [s.field], field := "" } := by
  simp only [finishField, bind_eq_ok, refuseIf_eq_ok, decide_eq_false_iff_not, pure_eq_ok, not_le,
    exists_const, ge_iff_le]
  tauto

theorem empty_row_iff : (row.length == 1 && row.head?.any String.isEmpty) = false ↔ row ≠ [""] := by
  match row with
  | [] => simp
  | [f] => simp
  | f :: g :: fs => simp

theorem finishRow_eq_ok :
    s.finishRow = .ok s' ↔ s.rows.length < maxRows ∧ s.row ≠ [""] ∧
      s' = { s with rows := s.rows ++ [s.row], row := [] } := by
  simp only [finishRow, bind_eq_ok, refuseIf_eq_ok, Bool.or_eq_false_iff, decide_eq_false_iff_not,
    pure_eq_ok, not_le, exists_const, ge_iff_le, empty_row_iff]
  tauto

theorem step_eq_ok :
    s.step c = .ok s' ↔ s.transition c = .ok s' ∧ s'.field.utf8ByteSize ≤ maxFieldBytes := by
  simp only [step, bind_eq_ok, refuseIf_eq_ok, decide_eq_false_iff_not, pure_eq_ok, not_lt,
    exists_const, gt_iff_lt]
  constructor
  · rintro ⟨a, ha, hle, rfl⟩
    exact ⟨ha, hle⟩
  · rintro ⟨ha, hle⟩
    exact ⟨s', ha, hle, rfl⟩

/-- A field ends. -/
def Ended : FieldState → Prop
  | .quoted => False
  | _ => True

theorem not_special (h : special c = false) : c ≠ ',' ∧ c ≠ '"' ∧ c ≠ '\n' := by
  simp only [special, Bool.or_eq_false_iff, beq_eq_false_iff_ne] at h
  exact ⟨h.1.1, h.1.2, h.2⟩

theorem transition_plain (h : special c = false) : ∀ {state : FieldState},
    transition ⟨rows, row, field, state⟩ c = match state with
      | .start | .unquoted => .ok ⟨rows, row, field.push c, .unquoted⟩
      | .quoted => .ok ⟨rows, row, field.push c, .quoted⟩
      | .afterQuote => refuse "malformed invoice CSV quoting" := by
  obtain ⟨hcomma, hquote, hline⟩ := not_special h
  intro state
  cases state <;> simp only [transition] <;> rfl

theorem transition_quoted (h : c ≠ '"') :
    transition ⟨rows, row, field, .quoted⟩ c = .ok ⟨rows, row, field.push c, .quoted⟩ := by
  simp only [transition]
  rfl

theorem transition_quote : ∀ {state : FieldState},
    transition ⟨rows, row, field, state⟩ '"' = match state with
      | .start => .ok ⟨rows, row, field, .quoted⟩
      | .unquoted => refuse "malformed invoice CSV quoting"
      | .quoted => .ok ⟨rows, row, field, .afterQuote⟩
      | .afterQuote => .ok ⟨rows, row, field.push '"', .quoted⟩ := by
  intro state
  cases state <;> rfl

theorem transition_comma {state : FieldState} (h : Ended state) :
    transition ⟨rows, row, field, state⟩ ',' = .ok s' ↔ row.length < maxColumns ∧
      s' = ⟨rows, row ++ [field], "", .start⟩ := by
  have hstep : transition ⟨rows, row, field, state⟩ ',' =
      finishField ⟨rows, row, field, state⟩ >>= fun s => pure { s with state := .start } := by
    cases state with
    | quoted => cases h
    | _ => rfl
  simp only [hstep, bind_eq_ok, finishField_eq_ok, pure_eq_ok]
  constructor
  · rintro ⟨_, ⟨hlt, rfl⟩, rfl⟩
    exact ⟨hlt, rfl⟩
  · rintro ⟨hlt, rfl⟩
    exact ⟨_, ⟨hlt, rfl⟩, rfl⟩

theorem transition_newline {state : FieldState} (h : Ended state) :
    transition ⟨rows, row, field, state⟩ '\n' = .ok s' ↔ row.length < maxColumns ∧
      rows.length < maxRows ∧ row ++ [field] ≠ [""] ∧
        s' = ⟨rows ++ [row ++ [field]], [], "", .start⟩ := by
  have hstep : transition ⟨rows, row, field, state⟩ '\n' =
      finishField ⟨rows, row, field, state⟩ >>= fun s => s.finishRow >>= fun s =>
        pure { s with state := .start } := by
    cases state with
    | quoted => cases h
    | _ => rfl
  simp only [hstep, bind_eq_ok, finishField_eq_ok, finishRow_eq_ok, pure_eq_ok]
  constructor
  · rintro ⟨_, ⟨hlt, rfl⟩, _, ⟨hrows, hline, rfl⟩, rfl⟩
    exact ⟨hlt, hrows, hline, rfl⟩
  · rintro ⟨hlt, hrows, hline, rfl⟩
    exact ⟨_, ⟨hlt, rfl⟩, _, ⟨hrows, hline, rfl⟩, rfl⟩

theorem finish_eq_ok {table : List (List String)} {state : FieldState} :
    finish ⟨rows, row, field, state⟩ = .ok table ↔ Ended state ∧ 2 ≤ table.length ∧
      ((row = [] ∧ field = "" ∧ state = .start ∧ table = rows) ∨
        (¬ (row = [] ∧ field = "" ∧ state = .start) ∧ row.length < maxColumns ∧
          rows.length < maxRows ∧ row ++ [field] ≠ [""] ∧ table = rows ++ [row ++ [field]])) := by
  have hopen : (!row.isEmpty || !field.isEmpty || state != .start) = true ↔
      ¬ (row = [] ∧ field = "" ∧ state = .start) := by
    simp only [Bool.or_eq_true, Bool.not_eq_true', List.isEmpty_eq_false_iff, bne_iff_ne,
      String.isEmpty_eq_false_iff]
    tauto
  have hended : (state == .quoted) = false ↔ Ended state := by
    cases state <;> simp [Ended]
  simp only [finish, bind_eq_ok, refuseIf_eq_ok, hended, exists_const]
  refine and_congr_right fun _ => ?_
  by_cases h : row = [] ∧ field = "" ∧ state = .start
  · rw [if_neg (fun hc => hopen.mp hc h)]
    simp only [h, bind_eq_ok, refuseIf_eq_ok, exists_const, decide_eq_false_iff_not, not_lt,
      not_true_eq_false, and_self, false_and, or_false, true_and, pure_eq_ok]
    constructor
    · rintro ⟨_, rfl, htwo, rfl⟩
      exact ⟨htwo, rfl⟩
    · rintro ⟨htwo, rfl⟩
      exact ⟨_, rfl, htwo, rfl⟩
  · rw [if_pos (hopen.mpr h)]
    simp only [bind_eq_ok, finishField_eq_ok, finishRow_eq_ok, refuseIf_eq_ok, exists_const,
      decide_eq_false_iff_not, not_lt, pure_eq_ok]
    constructor
    · rintro ⟨_, ⟨hlt, rfl⟩, _, ⟨hrows, hline, rfl⟩, htwo, rfl⟩
      exact ⟨htwo, .inr ⟨h, hlt, hrows, hline, rfl⟩⟩
    · rintro ⟨htwo, ⟨hrow, hfield, hstate, -⟩ | ⟨-, hlt, hrows, hline, rfl⟩⟩
      · exact absurd ⟨hrow, hfield, hstate⟩ h
      · exact ⟨_, ⟨hlt, rfl⟩, _, ⟨hrows, hline, rfl⟩, htwo, rfl⟩

end Scan

/-! ## A rendering is read -/

namespace Scan

variable {rows table : List (List String)} {row fs : List String} {f : String}
  {state : FieldState} {t : List Char}

/-- The loop over a text. -/
def run (s : Scan) (t : List Char) : Result Scan := t.foldlM step s

theorem run_append (s : Scan) (t u : List Char) :
    s.run (t ++ u) = s.run t >>= fun s => s.run u := by
  rw [run, List.foldlM_append]
  rfl

theorem run_cons (s : Scan) (c : Char) (t : List Char) :
    s.run (c :: t) = s.step c >>= fun s => s.run t := by
  rw [run, List.foldlM_cons]
  rfl

theorem run_step {s s' : Scan} {c : Char} (h : s.step c = .ok s') (t : List Char) :
    s.run (c :: t) = s'.run t := by
  rw [run_cons, h]
  rfl

theorem push_ofList (cs : List Char) (c : Char) :
    (String.ofList cs).push c = String.ofList (cs ++ [c]) := by
  rw [← String.toList_inj]
  simp

theorem size_mono {cs ds : List Char}
    (h : (String.ofList (cs ++ ds)).utf8ByteSize ≤ maxFieldBytes) :
    (String.ofList cs).utf8ByteSize ≤ maxFieldBytes := by
  rw [String.ofList_append, String.utf8ByteSize_append] at h
  omega

/-- **Characters of a bare field.** -/
theorem run_bare : ∀ (l : List Char) {g : List Char}, (∀ c ∈ l, special c = false) →
    (String.ofList (g ++ l)).utf8ByteSize ≤ maxFieldBytes →
    run ⟨rows, row, String.ofList g, .unquoted⟩ l =
      .ok ⟨rows, row, String.ofList (g ++ l), .unquoted⟩
  | [], g, _, _ => by
    rw [List.append_nil]
    rfl
  | c :: l, g, h, hsize => by
    rw [List.append_cons] at hsize ⊢
    have hstep : step ⟨rows, row, String.ofList g, .unquoted⟩ c =
        .ok ⟨rows, row, String.ofList (g ++ [c]), .unquoted⟩ := by
      refine step_eq_ok.mpr ⟨?_, size_mono hsize⟩
      rw [transition_plain (h c List.mem_cons_self), push_ofList]
    rw [run_step hstep, run_bare l (fun d hd => h d (List.mem_cons_of_mem c hd)) hsize]

/-- **Characters of a quoted field.** -/
theorem run_doubled : ∀ (l : List Char) {g : List Char},
    (String.ofList (g ++ l)).utf8ByteSize ≤ maxFieldBytes →
    run ⟨rows, row, String.ofList g, .quoted⟩ (l.flatMap doubled) =
      .ok ⟨rows, row, String.ofList (g ++ l), .quoted⟩
  | [], g, _ => by
    rw [List.append_nil]
    rfl
  | c :: l, g, hsize => by
    rw [List.append_cons] at hsize ⊢
    rw [List.flatMap_cons, doubled, ← run_doubled l hsize]
    have hnext := size_mono hsize
    split
    · rename_i hc
      subst hc
      have hfirst : step ⟨rows, row, String.ofList g, .quoted⟩ '"' =
          .ok ⟨rows, row, String.ofList g, .afterQuote⟩ :=
        step_eq_ok.mpr ⟨transition_quote, size_mono hnext⟩
      have hsecond : step ⟨rows, row, String.ofList g, .afterQuote⟩ '"' =
          .ok ⟨rows, row, String.ofList (g ++ ['"']), .quoted⟩ :=
        step_eq_ok.mpr ⟨by rw [transition_quote, push_ofList], hnext⟩
      rw [List.cons_append, run_step hfirst, List.cons_append, run_step hsecond]
      rfl
    · rename_i hc
      have hstep : step ⟨rows, row, String.ofList g, .quoted⟩ c =
          .ok ⟨rows, row, String.ofList (g ++ [c]), .quoted⟩ :=
        step_eq_ok.mpr ⟨by rw [transition_quoted hc, push_ofList], hnext⟩
      rw [List.cons_append, run_step hstep]
      rfl

/-- **A field.** -/
theorem run_field (h : FieldText Eq f t) (hsize : f.utf8ByteSize ≤ maxFieldBytes) :
    ∃ state, run ⟨rows, row, "", .start⟩ t = .ok ⟨rows, row, f, state⟩ ∧ Ended state := by
  cases h with
  | bare h =>
    obtain ⟨cs, rfl⟩ : ∃ cs, f = String.ofList cs := ⟨f.toList, by simp⟩
    rw [String.toList_ofList] at h ⊢
    cases cs with
    | nil => exact ⟨.start, rfl, trivial⟩
    | cons c cs =>
      have hstep : step ⟨rows, row, "", .start⟩ c =
          .ok ⟨rows, row, String.ofList [c], .unquoted⟩ := by
        refine step_eq_ok.mpr ⟨?_, @size_mono [c] cs hsize⟩
        rw [transition_plain (h c List.mem_cons_self)]
        rfl
      refine ⟨.unquoted, ?_, trivial⟩
      rw [run_step hstep, run_bare cs (fun d hd => h d (List.mem_cons_of_mem c hd)) hsize]
      rfl
  | quoted t h =>
    subst h
    have hfirst : step ⟨rows, row, "", .start⟩ '"' = .ok ⟨rows, row, String.ofList [], .quoted⟩ :=
      step_eq_ok.mpr ⟨transition_quote, Nat.zero_le _⟩
    have hlast : step ⟨rows, row, f, .quoted⟩ '"' = .ok ⟨rows, row, f, .afterQuote⟩ :=
      step_eq_ok.mpr ⟨transition_quote, hsize⟩
    refine ⟨.afterQuote, ?_, trivial⟩
    rw [List.cons_append, run_step hfirst, run_append,
      run_doubled f.toList (by rwa [List.nil_append, String.ofList_toList]), List.nil_append,
      String.ofList_toList]
    exact run_step hlast []

/-- **Fields with a comma behind each.** -/
theorem run_cells (h : Cells Eq fs t) (hsize : ∀ f ∈ fs, f.utf8ByteSize ≤ maxFieldBytes)
    (hcolumns : (row ++ fs).length ≤ maxColumns) :
    run ⟨rows, row, "", .start⟩ t = .ok ⟨rows, row ++ fs, "", .start⟩ := by
  induction h generalizing row with
  | nil =>
    rw [List.append_nil]
    rfl
  | @cons f fs t u h rest ih =>
    rw [List.append_cons] at hcolumns
    obtain ⟨state, hrun, hended⟩ := @run_field rows row f t h (hsize f List.mem_cons_self)
    have hlt : row.length < maxColumns := by
      simp only [List.length_append, List.length_singleton] at hcolumns
      omega
    have hcomma : step ⟨rows, row, f, state⟩ ',' = .ok ⟨rows, row ++ [f], "", .start⟩ :=
      step_eq_ok.mpr ⟨(transition_comma hended).mpr ⟨hlt, rfl⟩, Nat.zero_le _⟩
    rw [run_append, hrun, List.append_cons row,
      ← ih (fun g hg => hsize g (List.mem_cons_of_mem f hg)) hcolumns]
    exact run_step hcomma u

/-- **A row without its ending.** -/
theorem run_row (h : RowText Eq row t) (hfits : Fits row) :
    ∃ fs f state, row = fs ++ [f] ∧ Ended state ∧ fs.length < maxColumns ∧
      run ⟨rows, [], "", .start⟩ t = .ok ⟨rows, fs, f, state⟩ := by
  cases h with
  | @mk fs f t u h last =>
    have hcolumns := hfits.columns
    rw [List.length_append, List.length_singleton] at hcolumns
    have hsize : ∀ g ∈ fs, g.utf8ByteSize ≤ maxFieldBytes := fun g hg =>
      hfits.fields g (List.mem_append_left _ hg)
    have hcells := @run_cells rows [] fs t h hsize (by rw [List.nil_append]; omega)
    rw [List.nil_append] at hcells
    obtain ⟨state, hrun, hended⟩ := @run_field rows fs f u last
      (hfits.fields f (List.mem_append_right _ List.mem_cons_self))
    refine ⟨fs, f, state, rfl, hended, by omega, ?_⟩
    rw [run_append, hcells]
    exact hrun

/-- **Rows with an ending behind each.** -/
theorem run_lines (h : Lines Eq Newline table t) (hfits : ∀ row ∈ table, Fits row)
    (hfew : (rows ++ table).length ≤ maxRows) :
    run ⟨rows, [], "", .start⟩ t = .ok ⟨rows ++ table, [], "", .start⟩ := by
  induction h generalizing rows with
  | nil =>
    rw [List.append_nil]
    rfl
  | @cons row table t e u h he rest ih =>
    subst he
    rw [List.append_cons] at hfew
    obtain ⟨fs, f, state, rfl, hended, hcolumns, hrun⟩ :=
      @run_row rows row t h (hfits row List.mem_cons_self)
    have hlt : rows.length < maxRows := by
      simp only [List.length_append, List.length_singleton] at hfew
      omega
    have hline : step ⟨rows, fs, f, state⟩ '\n' =
        .ok ⟨rows ++ [fs ++ [f]], [], "", .start⟩ :=
      step_eq_ok.mpr ⟨(transition_newline hended).mpr
        ⟨hcolumns, hlt, (hfits _ List.mem_cons_self).line, rfl⟩, Nat.zero_le _⟩
    rw [run_append, hrun, List.append_cons rows,
      ← ih (fun r hr => hfits r (List.mem_cons_of_mem _ hr)) hfew]
    exact run_step hline u

/-- **The parser reads every rendering.** -/
theorem run_rendering (h : Rendering Eq Newline table t) (hfits : ∀ row ∈ table, Fits row)
    (hrecords : 2 ≤ table.length) (hfew : table.length ≤ maxRows) :
    (init.run t >>= fun s => s.finish) = .ok table := by
  cases h with
  | ended h =>
    have hrun := @run_lines [] table t h hfits hfew
    rw [List.nil_append] at hrun
    rw [init, hrun]
    exact (@finish_eq_ok table [] "" table .start).mpr ⟨trivial, hrecords, .inl ⟨rfl, rfl, rfl, rfl⟩⟩
  | @unended table row t u h last =>
    rw [List.length_append, List.length_singleton] at hfew
    have hlines := @run_lines [] table t h
      (fun r hr => hfits r (List.mem_append_left _ hr)) (by rw [List.nil_append]; omega)
    have hrow := hfits row (List.mem_append_right _ List.mem_cons_self)
    obtain ⟨fs, f, state, rfl, hended, hcolumns, hrun⟩ := @run_row table row u last hrow
    have hopen : ¬ (fs = [] ∧ f = "" ∧ state = .start) := by
      rintro ⟨rfl, rfl, -⟩
      exact hrow.line rfl
    rw [init, run_append, hlines, List.nil_append]
    change (run ⟨table, [], "", .start⟩ u >>= fun s => s.finish) = _
    rw [hrun]
    exact finish_eq_ok.mpr
      ⟨hended, hrecords, .inr ⟨hopen, hcolumns, Nat.lt_of_succ_le hfew, hrow.line, rfl⟩⟩

end Scan

/-! ## Whatever is read is a rendering -/

theorem Cells.snoc {inner : List Char → List Char → Prop} {fs : List String} {f : String}
    {t u : List Char} (h : Cells inner fs t) (hf : FieldText inner f u) :
    Cells inner (fs ++ [f]) (t ++ (u ++ [','])) := by
  induction h with
  | nil => exact .cons hf .nil
  | cons hg _ ih =>
    rw [List.append_assoc, List.cons_append]
    exact .cons hg ih

theorem Lines.snoc {inner : List Char → List Char → Prop} {ending : List Char → Prop}
    {rows : List (List String)} {row : List String} {t u e : List Char}
    (h : Lines inner ending rows t) (hrow : RowText inner row u) (he : ending e) :
    Lines inner ending (rows ++ [row]) (t ++ (u ++ e)) := by
  induction h with
  | nil =>
    have hone := Lines.cons hrow he .nil
    rwa [List.append_nil] at hone
  | cons hr he' _ ih =>
    rw [List.append_assoc, List.append_assoc]
    exact .cons hr he' ih

/-- What has been read of the current field. -/
inductive Opened : FieldState → String → List Char → Prop
  | start : Opened .start "" []
  | unquoted {f} (h : ∀ c ∈ f.toList, special c = false) : Opened .unquoted f f.toList
  | quoted (f) : Opened .quoted f ('"' :: f.toList.flatMap doubled)
  | afterQuote (f) : Opened .afterQuote f ('"' :: f.toList.flatMap doubled ++ ['"'])

theorem Opened.ended {state : FieldState} {f : String} {t : List Char} (h : Opened state f t)
    (he : Scan.Ended state) : FieldText Eq f t := by
  cases h with
  | start => exact .bare (by decide)
  | unquoted h => exact .bare h
  | quoted => cases he
  | afterQuote => exact .quoted _ rfl

/-- **The invariant of the automaton**: what it has read renders what it holds. -/
structure Reads (s : Scan) (t : List Char) : Prop where
  text : ∃ a b d, t = a ++ (b ++ d) ∧ Lines Eq Newline s.rows a ∧ Cells Eq s.row b ∧
    Opened s.state s.field d
  few : s.rows.length ≤ maxRows
  columns : s.row.length ≤ maxColumns
  fits : ∀ row ∈ s.rows, Fits row
  fields : ∀ f ∈ s.row, f.utf8ByteSize ≤ maxFieldBytes
  field : s.field.utf8ByteSize ≤ maxFieldBytes

theorem reads_init : Reads Scan.init [] where
  text := ⟨[], [], [], rfl, .nil, .nil, .start⟩
  few := Nat.zero_le _
  columns := Nat.zero_le _
  fits _ h := absurd h List.not_mem_nil
  fields _ h := absurd h List.not_mem_nil
  field := Nat.zero_le _

section Step

variable {rows : List (List String)} {row : List String} {f f' : String}
  {state state' : FieldState} {s s' : Scan} {t d : List Char} {c : Char}

theorem Opened.push_doubled (h : Opened .quoted f d) (hc : c ≠ '"') :
    Opened .quoted (f.push c) (d ++ [c]) := by
  cases h
  have hpush : (f.push c).toList.flatMap doubled = f.toList.flatMap doubled ++ [c] := by
    rw [String.toList_push, List.flatMap_append, List.flatMap_singleton, doubled, if_neg hc]
  rw [List.cons_append, ← hpush]
  exact .quoted _

theorem Opened.push_quote (h : Opened .afterQuote f d) :
    Opened .quoted (f.push '"') (d ++ ['"']) := by
  cases h
  have hpush : (f.push '"').toList.flatMap doubled = f.toList.flatMap doubled ++ ['"', '"'] := by
    rw [String.toList_push, List.flatMap_append, List.flatMap_singleton, doubled, if_pos rfl]
  rw [List.cons_append, List.cons_append, List.append_assoc, List.singleton_append, ← hpush]
  exact .quoted _

theorem Opened.push_bare (h : Opened .unquoted f d) (hc : special c = false) :
    Opened .unquoted (f.push c) (d ++ [c]) := by
  cases h with
  | unquoted h =>
    rw [← String.toList_push]
    refine .unquoted fun x hx => ?_
    rw [String.toList_push, List.mem_append, List.mem_singleton] at hx
    rcases hx with hx | rfl
    · exact h x hx
    · exact hc

/-- The rows and fields before the current one stand. -/
theorem Reads.within (h : Reads ⟨rows, row, f, state⟩ t)
    (ho : ∀ d, Opened state f d → Opened state' f' (d ++ [c]))
    (hsize : f'.utf8ByteSize ≤ maxFieldBytes) : Reads ⟨rows, row, f', state'⟩ (t ++ [c]) := by
  obtain ⟨⟨a, b, d, rfl, ha, hb, hd⟩, hfew, hcolumns, hfits, hfields, -⟩ := h
  refine ⟨⟨a, b, d ++ [c], ?_, ha, hb, ho d hd⟩, hfew, hcolumns, hfits, hfields, hsize⟩
  rw [List.append_assoc, List.append_assoc]

/-- A comma ends a field. -/
theorem Reads.comma (h : Reads ⟨rows, row, f, state⟩ t) (he : Scan.Ended state)
    (hlt : row.length < maxColumns) : Reads ⟨rows, row ++ [f], "", .start⟩ (t ++ [',']) := by
  obtain ⟨⟨a, b, d, rfl, ha, hb, hd⟩, hfew, hcolumns, hfits, hfields, hsize⟩ := h
  refine ⟨⟨a, _, [], ?_, ha, hb.snoc (hd.ended he), .start⟩, hfew, ?_, hfits, fun g hg => ?_,
    Nat.zero_le _⟩
  · rw [List.append_nil, List.append_assoc, List.append_assoc]
  · rw [List.length_append]
    exact hlt
  · rcases List.mem_append.mp hg with hg | hg
    · exact hfields g hg
    · exact List.mem_singleton.mp hg ▸ hsize

/-- The row that ends with the current field. -/
theorem Reads.fits_row (h : Reads ⟨rows, row, f, state⟩ t) (hlt : row.length < maxColumns)
    (hline : row ++ [f] ≠ [""]) : Fits (row ++ [f]) where
  nonempty := by simp
  columns := by
    rw [List.length_append]
    exact hlt
  line := hline
  fields g hg := by
    rcases List.mem_append.mp hg with hg | hg
    · exact h.fields g hg
    · exact List.mem_singleton.mp hg ▸ h.field

/-- A newline ends a row. -/
theorem Reads.newline (h : Reads ⟨rows, row, f, state⟩ t) (he : Scan.Ended state)
    (hlt : row.length < maxColumns) (hrows : rows.length < maxRows) (hline : row ++ [f] ≠ [""]) :
    Reads ⟨rows ++ [row ++ [f]], [], "", .start⟩ (t ++ ['\n']) := by
  have hrow := h.fits_row hlt hline
  obtain ⟨⟨a, b, d, rfl, ha, hb, hd⟩, hfew, hcolumns, hfits, hfields, hsize⟩ := h
  refine ⟨⟨_, [], [], ?_, ha.snoc (.mk hb (hd.ended he)) rfl, .nil, .start⟩, ?_, Nat.zero_le _,
    fun r hr => ?_, fun _ hr => absurd hr List.not_mem_nil, Nat.zero_le _⟩
  · simp only [List.append_nil, List.append_assoc]
  · rw [List.length_append]
    exact hrows
  · rcases List.mem_append.mp hr with hr | hr
    · exact hfits r hr
    · exact List.mem_singleton.mp hr ▸ hrow

theorem special_cases (h : special c = true) : c = ',' ∨ c = '"' ∨ c = '\n' := by
  simp only [special, Bool.or_eq_true, beq_iff_eq] at h
  tauto

/-- **One turn of the loop keeps the invariant.** -/
theorem Reads.step (h : Reads s t) (hstep : s.step c = .ok s') : Reads s' (t ++ [c]) := by
  obtain ⟨hstep, hsize⟩ := Scan.step_eq_ok.mp hstep
  obtain ⟨rows, row, f, state⟩ := s
  cases hc : special c with
  | false =>
    rw [Scan.transition_plain hc] at hstep
    cases state with
    | start =>
      cases hstep
      refine h.within (fun d hd => ?_) hsize
      cases hd
      exact Opened.push_bare (.unquoted (by decide)) hc
    | unquoted =>
      cases hstep
      exact h.within (fun d hd => hd.push_bare hc) hsize
    | quoted =>
      cases hstep
      exact h.within (fun d hd => hd.push_doubled (Scan.not_special hc).2.1) hsize
    | afterQuote => cases hstep
  | true =>
    rcases special_cases hc with rfl | rfl | rfl
    · by_cases he : Scan.Ended state
      · obtain ⟨hlt, rfl⟩ := (Scan.transition_comma he).mp hstep
        exact h.comma he hlt
      · obtain rfl : state = .quoted := by
          cases state <;> simp_all [Scan.Ended]
        cases hstep
        exact h.within (fun d hd => hd.push_doubled (by decide)) hsize
    · rw [Scan.transition_quote] at hstep
      cases state with
      | start =>
        cases hstep
        refine h.within (fun d hd => ?_) hsize
        cases hd
        exact .quoted ""
      | unquoted => cases hstep
      | quoted =>
        cases hstep
        refine h.within (fun d hd => ?_) hsize
        cases hd
        exact .afterQuote f
      | afterQuote =>
        cases hstep
        exact h.within (fun d hd => hd.push_quote) hsize
    · by_cases he : Scan.Ended state
      · obtain ⟨hlt, hrows, hline, rfl⟩ := (Scan.transition_newline he).mp hstep
        exact h.newline he hlt hrows hline
      · obtain rfl : state = .quoted := by
          cases state <;> simp_all [Scan.Ended]
        cases hstep
        exact h.within (fun d hd => hd.push_doubled (by decide)) hsize

theorem Reads.run : ∀ {u t : List Char} {s s' : Scan}, Reads s t → s.run u = .ok s' →
    Reads s' (t ++ u)
  | [], t, s, s', h, hrun => by
    cases hrun
    rwa [List.append_nil]
  | c :: u, t, s, s', h, hrun => by
    rw [Scan.run_cons, bind_eq_ok] at hrun
    obtain ⟨m, hstep, hrun⟩ := hrun
    rw [List.append_cons]
    exact (h.step hstep).run hrun

/-- **Whatever the parser returns, it has read a rendering of it.** -/
theorem rendering_run {table : List (List String)}
    (h : (Scan.init.run t >>= fun s => s.finish) = .ok table) :
    Rendering Eq Newline table t ∧ (∀ row ∈ table, Fits row) ∧ 2 ≤ table.length ∧
      table.length ≤ maxRows := by
  obtain ⟨s, hrun, hfinish⟩ := bind_eq_ok.mp h
  have hreads := reads_init.run hrun
  rw [List.nil_append] at hreads
  obtain ⟨rows, row, f, state⟩ := s
  obtain ⟨he, htwo, ⟨rfl, rfl, rfl, rfl⟩ | ⟨-, hlt, hrows, hline, rfl⟩⟩ :=
    Scan.finish_eq_ok.mp hfinish
  · obtain ⟨⟨a, b, d, rfl, ha, hb, hd⟩, hfew, -, hfits, -, -⟩ := hreads
    cases hb
    cases hd
    rw [List.append_nil, List.append_nil]
    exact ⟨.ended ha, hfits, htwo, hfew⟩
  · have hrow := hreads.fits_row hlt hline
    obtain ⟨⟨a, b, d, rfl, ha, hb, hd⟩, hfew, -, hfits, -, -⟩ := hreads
    refine ⟨.unended ha (.mk hb (hd.ended he)), fun r hr => ?_, htwo, ?_⟩
    · rcases List.mem_append.mp hr with hr | hr
      · exact hfits r hr
      · exact List.mem_singleton.mp hr ▸ hrow
    · rw [List.length_append]
      exact hrows

end Step

/-! ## Characters -/

section Characters

variable {rows : List (List String)} {row fs : List String} {f : String} {n t : List Char}
  {p : Char → Prop}

theorem forall_doubled {l : List Char} :
    (∀ c ∈ l.flatMap doubled, p c) ↔ ∀ c ∈ l, p c := by
  have hdoubled : ∀ x, (∀ c ∈ doubled x, p c) ↔ p x := by
    intro x
    unfold doubled
    split
    · rename_i hx
      subst hx
      simp
    · simp
  simp only [List.mem_flatMap, forall_exists_index, and_imp]
  rw [forall_comm]
  exact forall_congr' fun x => by
    rw [← hdoubled x]
    tauto

theorem FieldText.forall_iff (hquote : p '"') (h : FieldText Eq f t) :
    (∀ c ∈ t, p c) ↔ ∀ c ∈ f.toList, p c := by
  cases h with
  | bare => rfl
  | quoted _ h =>
    subst h
    rw [List.cons_append, List.forall_mem_cons, List.forall_mem_append, forall_doubled]
    simp [hquote]

theorem Cells.forall_iff (hquote : p '"') (hcomma : p ',') (h : Cells Eq fs t) :
    (∀ c ∈ t, p c) ↔ ∀ f ∈ fs, ∀ c ∈ f.toList, p c := by
  induction h with
  | nil => simp
  | cons hf _ ih =>
    rw [List.forall_mem_append, List.forall_mem_cons, List.forall_mem_cons, hf.forall_iff hquote, ih]
    tauto

theorem RowText.forall_iff (hquote : p '"') (hcomma : p ',') (h : RowText Eq row t) :
    (∀ c ∈ t, p c) ↔ ∀ f ∈ row, ∀ c ∈ f.toList, p c := by
  cases h with
  | mk h last =>
    rw [List.forall_mem_append, List.forall_mem_append, h.forall_iff hquote hcomma,
      last.forall_iff hquote]
    simp

theorem Lines.forall_iff (hquote : p '"') (hcomma : p ',') (hline : p '\n')
    (h : Lines Eq Newline rows t) :
    (∀ c ∈ t, p c) ↔ ∀ row ∈ rows, ∀ f ∈ row, ∀ c ∈ f.toList, p c := by
  induction h with
  | nil => simp
  | cons hrow he _ ih =>
    subst he
    rw [List.forall_mem_append, List.forall_mem_append, List.forall_mem_cons,
      hrow.forall_iff hquote hcomma, ih]
    simp [hline]

/-- **The characters of a text are those of its fields**, but for those that separate them. -/
theorem Rendering.forall_iff (hquote : p '"') (hcomma : p ',') (hline : p '\n')
    (h : Rendering Eq Newline rows t) :
    (∀ c ∈ t, p c) ↔ ∀ row ∈ rows, ∀ f ∈ row, ∀ c ∈ f.toList, p c := by
  cases h with
  | ended h => exact h.forall_iff hquote hcomma hline
  | unended h last =>
    rw [List.forall_mem_append, List.forall_mem_append, h.forall_iff hquote hcomma hline,
      last.forall_iff hquote hcomma]
    simp

theorem Spelled.mem_iff (h : Spelled n t) {c : Char} (hc : c ≠ '\r') : c ∈ t ↔ c ∈ n := by
  induction h with
  | nil => rfl
  | same x _ ih => rw [List.mem_cons, List.mem_cons, ih]
  | crlf _ ih =>
    rw [List.mem_cons, List.mem_cons, List.mem_cons, ih]
    simp [hc]

theorem Spelled.eq_nil (h : Spelled n []) : n = [] := by
  cases h
  rfl

end Characters

/-! ## The parser -/

section

variable {rows : List (List String)} {text : List Char}

theorem Rendering.ne_nil {inner : List Char → List Char → Prop} {ending : List Char → Prop}
    (he : ∀ e, ending e → e ≠ []) (h : Rendering inner ending rows text)
    (htwo : 2 ≤ rows.length) : text ≠ [] := by
  have hlines : ∀ {rows text}, Lines inner ending rows text → rows ≠ [] → text ≠ [] := by
    rintro _ _ (_ | ⟨hrow, hending, _⟩) hne
    · exact absurd rfl hne
    · exact fun h => he _ hending (List.append_eq_nil_iff.mp (List.append_eq_nil_iff.mp h).2).1
  cases h with
  | ended h =>
    refine hlines h ?_
    rintro rfl
    simp at htwo
  | unended h last =>
    refine fun hnil => hlines h ?_ (List.append_eq_nil_iff.mp hnil).1
    rintro rfl
    simp at htwo

theorem contains_eq_false {l : List Char} {c : Char} : l.contains c = false ↔ c ∉ l := by
  rw [Bool.eq_false_iff, ne_eq, List.contains_iff_mem]

theorem bytesOf_ne_nil (h : text ≠ []) : bytesOf text ≠ [] := by
  intro hnil
  have hread := utf8Text_bytesOf text
  rw [hnil, ← show bytesOf [] = [] from rfl, utf8Text_bytesOf, Option.some.injEq] at hread
  exact h (String.ofList_injective hread).symm

/-- A character that a text may hold. -/
def plainChar (c : Char) : Prop := c ≠ '\x00' ∧ c ≠ '\r'

theorem plain_iff {n : List Char} (h : Rendering Eq Newline rows n) :
    (∀ c ∈ n, plainChar c) ↔
      ∀ row ∈ rows, ∀ f ∈ row, '\x00' ∉ f.toList ∧ '\r' ∉ f.toList := by
  have hchars : plainChar '"' ∧ plainChar ',' ∧ plainChar '\n' := by
    unfold plainChar
    decide
  rw [h.forall_iff hchars.1 hchars.2.1 hchars.2.2]
  refine forall_congr' fun row => forall_congr' fun _ => forall_congr' fun f =>
    forall_congr' fun _ => ⟨fun h => ⟨fun hmem => (h _ hmem).1 rfl, fun hmem => (h _ hmem).2 rfl⟩,
      fun ⟨hnul, hcr⟩ c hc => ⟨?_, ?_⟩⟩
  · rintro rfl
    exact hnul hc
  · rintro rfl
    exact hcr hc

/-- **What `parse_csv` accepts and returns.** -/
theorem parseCsv_eq_ok {bytes : Bytes} :
    parseCsv bytes = .ok rows ↔ Admissible rows ∧ bytes.length ≤ maxSourceBytes ∧
      ∃ text, bytes = bytesOf text ∧ ∃ n, Rendering Eq Newline rows n ∧ Spelled n text := by
  simp only [parseCsv, bind_eq_ok, refuseIf_eq_ok, okOr_eq_ok, utf8Text_eq_some, exists_const,
    Bool.or_eq_false_iff, decide_eq_false_iff_not, not_lt, List.isEmpty_eq_false_iff,
    contains_eq_false]
  constructor
  · rintro ⟨⟨-, hsize⟩, source, hbytes, hnul, hcr, s, hrun, hfinish⟩
    have hspelled := normalize_spelled _ hcr
    obtain ⟨hrender, hfits, htwo, hfew⟩ := rendering_run (bind_eq_ok.mpr ⟨s, hrun, hfinish⟩)
    refine ⟨⟨htwo, hfew, hfits, (plain_iff hrender).mp fun c hc => ⟨?_, ?_⟩⟩, hsize, _, hbytes, _,
      hrender, hspelled⟩
    · rintro rfl
      exact hnul ((hspelled.mem_iff (by decide)).mpr hc)
    · rintro rfl
      exact hcr hc
  · rintro ⟨hadmissible, hsize, text, rfl, n, hrender, hspelled⟩
    have hplain := (plain_iff hrender).mpr hadmissible.plain
    have hcr : '\r' ∉ n := fun h => (hplain _ h).2 rfl
    have hn : n ≠ [] :=
      hrender.ne_nil (fun e he => by rw [he]; exact List.cons_ne_nil _ _) hadmissible.records
    have htext : text ≠ [] := by
      rintro rfl
      exact hn hspelled.eq_nil
    obtain ⟨s, hrun, hfinish⟩ := bind_eq_ok.mp
      (Scan.run_rendering hrender hadmissible.fits hadmissible.records hadmissible.few)
    refine ⟨⟨bytesOf_ne_nil htext, hsize⟩, String.ofList text, by rw [String.toList_ofList], ?_, ?_,
      s, ?_, hfinish⟩ <;> rw [String.toList_ofList]
    · exact fun h => (hplain _ ((hspelled.mem_iff (by decide)).mp h)).1 rfl
    · rwa [hspelled.normalize hcr]
    · rwa [hspelled.normalize hcr]

/-- **The parser inverts writing.** It reads a table back from every text that writes it, with rows
that end in LF or CRLF; whatever it accepts writes the table it returns, but for quoted newlines that
were written as CRLF. -/
theorem parse_csv_inverts (rows : List (List String)) :
    (∀ text, Admissible rows → Rendering Eq LineEnding rows text →
      (bytesOf text).length ≤ maxSourceBytes → parseCsv (bytesOf text) = .ok rows) ∧
    ∀ bytes, parseCsv bytes = .ok rows ↔ Admissible rows ∧ bytes.length ≤ maxSourceBytes ∧
      ∃ text, bytes = bytesOf text ∧ Rendering Spelled LineEnding rows text := by
  constructor
  · intro text hadmissible hrender hsize
    have hinner : ∀ a b : List Char, a = b → Spelled a b := by
      rintro a _ rfl
      exact .refl a
    exact parseCsv_eq_ok.mpr ⟨hadmissible, hsize, text, rfl, hrender.unspelled hinner⟩
  · intro bytes
    rw [parseCsv_eq_ok]
    refine and_congr_right fun _ => and_congr_right fun _ => exists_congr fun text =>
      and_congr_right fun _ => ⟨?_, fun h => h.unspelled fun _ _ h => h⟩
    rintro ⟨n, hrender, hspelled⟩
    exact hrender.spelled hspelled

example : parseCsv (bytesOf "a,\"b \"\"c\"\"\r\n\"\r\n\"\",d".toList) =
    .ok [["a", "b \"c\"\n"], ["", "d"]] := by decide +kernel

end

end LumaOS.Calculation
