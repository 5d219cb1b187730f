import LumaOS.Governance.Identity
import LumaOS.Text.Affix
import LumaOS.Text.Rows

/-!
# The account observation

`account_rows_digest`, `recovery_account_rows_digest` and `rows_commitment` of `principal.rs`
(`:445-538`). A digest is taken over a message, and the message is a definition of its own
(`accountRows`, `rowsMessage`): SHA-256 is a parameter, free of collisions among the messages that a
statement is about.

The rows come out of `str::lines`, which drops a CR in front of the LF (`lineText`); the file holds
the row with it (`delimited`). The message joins two rows at a NUL, which a row may hold itself.
What keeps them apart is the count of their fields and the login shell in front of the NUL
(`joined_rows_inj`).

* `accountRows_eq_ok`: the message is made of the one line of each file that is named after the
  login.
* `digest_pins_iff`: equal digests leave room for one difference, a CR in front of the LF; the
  commitments of two principals differ.
-/

namespace LumaOS.Governance

open LumaOS.Base LumaOS.Text LumaOS.Json

/-! ## Lines -/

/-- A line as `str::lines` gives it. -/
def lineText (l : List Char) : List Char :=
  if l.getLast? = some '\n' then
    if l.dropLast.getLast? = some '\r' then l.dropLast.dropLast else l.dropLast
  else l

/-- A line as the LF delimits it. -/
def delimited (l : List Char) : List Char := if l.getLast? = some '\n' then l.dropLast else l

/-- The line ends with CR and LF. -/
def endsCrLf (l : List Char) : Bool :=
  l.getLast? == some '\n' && l.dropLast.getLast? == some '\r'

/-- `text.lines()`. -/
def textLines (text : String) : List (List Char) := (lines text.toList).map lineText

/-- The lines of a file whose first field is the login. -/
def namedLines (login : String) (content : Bytes) : List (List Char) :=
  match utf8Text content with
  | none => []
  | some text =>
    (lines text.toList).filter fun l => (fields (lineText l)).head? == some login.toList

/-- The LF-delimited rows of a file that are named after the login. -/
def namedRows (login : String) (content : Bytes) : List (List Char) :=
  (namedLines login content).map delimited

/-! ## The digest -/

/-- `matches!(shell, "/bin/bash" | "/bin/sh")`. -/
def shellAllowed (shell : List Char) : Bool :=
  shell == "/bin/bash".toList || shell == "/bin/sh".toList

/-- A row of the passwd file: the account found and how many rows have the uid. -/
def passwdRow (principal : Principal) (scan : Option (List Char) × Nat) (row : List Char) :
    Result (Option (List Char) × Nat) :=
  match fields row with
  | [name, password, uid, gid, _, home, shell] => do
    let uid ← okOr (parseU32 (String.ofList uid)) "invalid local account uid"
    let matching := if uid == principal.uid then scan.2 + 1 else scan.2
    if name == principal.login.toList then do
      refuseIf (scan.1.isSome || uid != principal.uid || password != ['x'] ||
        !shellAllowed shell || home != "/home/".toList ++ principal.login.toList)
        "local principal/account identity mismatch"
      let _ ← okOr (parseU32 (String.ofList gid)) "invalid local account gid"
      pure (some row, matching)
    else pure (scan.1, matching)
  | _ => refuse "invalid local passwd record"

/-- A row of the shadow file: the credential found. -/
def shadowRow (principal : Principal) (allowLocked allowUnusable : Bool)
    (credential : Option (List Char)) (row : List Char) : Result (Option (List Char)) :=
  match fields row with
  | [name, value, _, _, _, _, _, _, _] =>
    if name == principal.login.toList then do
      refuseIf (credential.isSome || (!allowUnusable && value.isEmpty) ||
        (!allowLocked && value.head? == some '!') || (!allowUnusable && value.head? == some '*'))
        "missing, locked or ambiguous local credential"
      pure (some row)
    else pure credential
  | _ => refuse "invalid local shadow record"

/-- What the account observation hashes. -/
def accountRows (passwd shadow : Bytes) (principal : Principal)
    (allowLocked allowUnusable : Bool) : Result Bytes := do
  let passwdText ← okOr (utf8Text passwd) "invalid local account encoding"
  let shadowText ← okOr (utf8Text shadow) "invalid local account encoding"
  let scan ← (textLines passwdText).foldlM (passwdRow principal) (none, 0)
  refuseIf (scan.2 != 1) "missing or ambiguous local uid"
  let credential ← (textLines shadowText).foldlM
    (shadowRow principal allowLocked allowUnusable) none
  let account ← okOr scan.1 "missing local account"
  let credential ← okOr credential "missing local credential"
  pure ("luma-local-account-observation-v1\x00".toUTF8.data.toList ++ bytesOf account ++ [0] ++
    bytesOf credential)

section Digests

variable (sha256 : Bytes → Vector UInt8 32)

def accountRowsDigestInner (passwd shadow : Bytes) (principal : Principal)
    (allowLocked allowUnusable : Bool) : Result (Vector UInt8 32) := do
  let message ← accountRows passwd shadow principal allowLocked allowUnusable
  pure (sha256 message)

def accountRowsDigest (passwd shadow : Bytes) (principal : Principal) (allowLocked : Bool) :
    Result (Vector UInt8 32) :=
  accountRowsDigestInner sha256 passwd shadow principal allowLocked false

def recoveryAccountRowsDigest (passwd shadow : Bytes) (principal : Principal) :
    Result (Vector UInt8 32) := do
  refuseIf (principal.uid != 1001)
    "offline credential recovery is reserved for the original Admin"
  accountRowsDigestInner sha256 passwd shadow principal true true

/-- `n.to_be_bytes()` of a `u32`. -/
def beBytes32 (n : Nat) : Bytes :=
  [UInt8.ofNat (n / 2 ^ 24), UInt8.ofNat (n / 2 ^ 16), UInt8.ofNat (n / 2 ^ 8), UInt8.ofNat n]

/-- What a commitment hashes. -/
def rowsMessage (installation : String) (principal : Principal) (digest : Vector UInt8 32) :
    Result Bytes := do
  let owner ← decode 32 installation
  let id ← decode 32 principal.id
  pure ("luma-account-credential-checkpoint-v1\x00".toUTF8.data.toList ++ owner ++ id ++
    beBytes32 principal.uid ++ digest.toList)

def rowsCommitment (installation : String) (principal : Principal) (digest : Vector UInt8 32) :
    Result String := do
  let message ← rowsMessage installation principal digest
  pure (hex (sha256 message).toList)

/-- Either digest accepts the files of the principal. -/
inductive Accepts (passwd shadow : Bytes) (principal : Principal) (digest : Vector UInt8 32) : Prop
  | live (allowLocked : Bool)
      (h : accountRowsDigest sha256 passwd shadow principal allowLocked = .ok digest)
  | recovery (h : recoveryAccountRowsDigest sha256 passwd shadow principal = .ok digest)

end Digests

/-- The messages that are hashed for the files of the principal. -/
def observed (passwd shadow : Bytes) (principal : Principal) : Set Bytes :=
  {m | ∃ allowLocked allowUnusable,
    accountRows passwd shadow principal allowLocked allowUnusable = .ok m}

variable {login : String} {principal : Principal} {l l' m : List Char}
  {passwd shadow passwd' shadow' : Bytes}

/-! ## Line ends -/

theorem delimited_eq (l : List Char) :
    delimited l = lineText l ++ if endsCrLf l then ['\r'] else [] := by
  unfold delimited lineText endsCrLf
  by_cases hlf : l.getLast? = some '\n'
  · rw [if_pos hlf, if_pos hlf, hlf, beq_self_eq_true, Bool.true_and]
    by_cases hcr : l.dropLast.getLast? = some '\r'
    · rw [if_pos hcr, hcr, beq_self_eq_true, if_pos rfl]
      exact (List.dropLast_append_getLast? _ hcr).symm
    · rw [if_neg hcr, beq_eq_false_iff_ne.mpr hcr, if_neg Bool.false_ne_true, List.append_nil]
  · rw [if_neg hlf, if_neg hlf, beq_eq_false_iff_ne.mpr hlf, Bool.false_and,
      if_neg Bool.false_ne_true, List.append_nil]

/-- **Two rows with one text** are the same up to the CR in front of the LF. -/
theorem delimited_inj (h : lineText l = lineText l') :
    delimited l = delimited l' ↔ endsCrLf l = endsCrLf l' := by
  rw [delimited_eq, delimited_eq, h, List.append_cancel_left_eq]
  cases endsCrLf l <;> cases endsCrLf l' <;> simp

/-! ## The loops -/

/-- The row is named after the login. -/
def named (login : String) (row : List Char) : Bool := (fields row).head? == some login.toList

/-- A loop that keeps the one row it selects has selected all there are. -/
theorem selected_of_foldlM {σ : Type} {step : σ → List Char → Result σ}
    {get : σ → Option (List Char)} {chosen : List Char → Bool} {good : List Char → Prop}
    (hstep : ∀ s row s', step s row = .ok s' →
      (get s').toList = (get s).toList ++ [row].filter chosen ∧ (chosen row = true → good row)) :
    ∀ {rows : List (List Char)} {s s' : σ}, rows.foldlM step s = .ok s' →
      (get s').toList = (get s).toList ++ rows.filter chosen ∧
        ∀ row ∈ rows, chosen row = true → good row
  | [], s, s', h => by
    rw [List.foldlM_nil, pure_eq_ok] at h
    subst h
    exact ⟨(List.append_nil _).symm, fun _ h => absurd h List.not_mem_nil⟩
  | row :: rows, s, s', h => by
    rw [List.foldlM_cons, bind_eq_ok] at h
    obtain ⟨s₁, hrow, hrest⟩ := h
    obtain ⟨hget, hgood⟩ := hstep s row s₁ hrow
    obtain ⟨hget', hgood'⟩ := selected_of_foldlM hstep hrest
    refine ⟨?_, List.forall_mem_cons.mpr ⟨hgood, hgood'⟩⟩
    rw [hget', hget, List.append_assoc, ← List.filter_append, List.singleton_append]

theorem passwdRow_selects {scan scan' : Option (List Char) × Nat} {row : List Char}
    (h : passwdRow principal scan row = .ok scan') :
    scan'.1.toList = scan.1.toList ++ [row].filter (named principal.login) ∧
      (named principal.login row = true →
        ∃ fs shell, fs.length = 6 ∧ fields row = fs ++ [shell] ∧ shellAllowed shell = true) := by
  unfold passwdRow at h
  split at h
  · rename_i name password uid gid gecos home shell hfields
    obtain ⟨uid, -, h⟩ := bind_eq_ok.mp h
    have hhead : named principal.login row = (name == principal.login.toList) := by
      rw [named, hfields]
      rfl
    rw [List.filter_singleton, hhead]
    dsimp only at h
    by_cases hname : (name == principal.login.toList) = true
    · rw [if_pos hname] at h
      simp only [bind_eq_ok, refuseIf_eq_ok, okOr_eq_ok, pure_eq_ok, Bool.or_eq_false_iff] at h
      obtain ⟨-, ⟨⟨⟨⟨hnone, -⟩, -⟩, hshell⟩, -⟩, -, -, rfl⟩ := h
      rw [Option.isSome_eq_false_iff, Option.isNone_iff_eq_none] at hnone
      rw [Bool.not_eq_false'] at hshell
      rw [hname, hnone, hfields]
      exact ⟨rfl, fun _ => ⟨[name, password, _, gid, gecos, home], shell, rfl, rfl, hshell⟩⟩
    · rw [if_neg hname, pure_eq_ok] at h
      subst h
      rw [Bool.not_eq_true] at hname
      rw [hname]
      exact ⟨(List.append_nil _).symm, fun h => Bool.noConfusion h⟩
  · exact absurd h refuse_ne_ok

theorem shadowRow_selects {allowLocked allowUnusable : Bool}
    {credential credential' : Option (List Char)} {row : List Char}
    (h : shadowRow principal allowLocked allowUnusable credential row = .ok credential') :
    credential'.toList = credential.toList ++ [row].filter (named principal.login) := by
  unfold shadowRow at h
  split at h
  · rename_i name value _ _ _ _ _ _ _ hfields
    have hhead : named principal.login row = (name == principal.login.toList) := by
      rw [named, hfields]
      rfl
    rw [List.filter_singleton, hhead]
    split at h
    · rename_i hname
      simp only [bind_eq_ok, refuseIf_eq_ok, pure_eq_ok, Bool.or_eq_false_iff] at h
      obtain ⟨-, ⟨⟨⟨hnone, -⟩, -⟩, -⟩, rfl⟩ := h
      rw [Option.isSome_eq_false_iff, Option.isNone_iff_eq_none] at hnone
      rw [hname, hnone]
      rfl
    · rename_i hname
      rw [pure_eq_ok] at h
      subst h
      rw [Bool.not_eq_true] at hname
      rw [hname]
      exact (List.append_nil _).symm
  · exact absurd h refuse_ne_ok

/-- What an accepted passwd row looks like. -/
def PasswdShape (row : List Char) : Prop :=
  ∃ fs shell, fs.length = 6 ∧ fields row = fs ++ [shell] ∧ shellAllowed shell = true

/-- The message for the rows of an account. -/
def rowsText (account credential : List Char) : Bytes :=
  "luma-local-account-observation-v1\x00".toUTF8.data.toList ++ bytesOf account ++ [0] ++
    bytesOf credential

theorem namedLines_of_text {content : Bytes} {text : String} (h : utf8Text content = some text) :
    (textLines text).filter (named login) = (namedLines login content).map lineText := by
  rw [namedLines, h, textLines, List.filter_map]
  rfl

theorem filter_of_selected {rows : List (List Char)} {row : List Char}
    (h : (some row).toList = (none : Option (List Char)).toList ++ rows.filter (named login)) :
    rows.filter (named login) = [row] := h.symm

theorem eq_singleton_of_map {α β : Type} {f : α → β} {xs : List α} {b : β} (h : xs.map f = [b]) :
    ∃ a, xs = [a] ∧ f a = b := by
  obtain ⟨a, as, rfl, ha, hnil⟩ := List.map_eq_cons_iff.mp h
  rw [List.map_eq_nil_iff] at hnil
  exact ⟨a, by rw [hnil], ha⟩

/-- **What is hashed** comes from the one line of each file that is named after the login. -/
theorem accountRows_eq_ok {allowLocked allowUnusable : Bool} {message : Bytes}
    (h : accountRows passwd shadow principal allowLocked allowUnusable = .ok message) :
    ∃ l m, namedLines principal.login passwd = [l] ∧ namedLines principal.login shadow = [m] ∧
      PasswdShape (lineText l) ∧ message = rowsText (lineText l) (lineText m) := by
  simp only [accountRows, bind_eq_ok, okOr_eq_ok, refuseIf_eq_ok, pure_eq_ok] at h
  obtain ⟨passwdText, hpasswd, shadowText, hshadow, scan, hscan, -, -, credential, hcredential,
    account, haccount, row, rfl, rfl⟩ := h
  obtain ⟨hselected, hshape⟩ := @selected_of_foldlM _ (passwdRow principal) Prod.fst
    (named principal.login) PasswdShape (fun _ _ _ hrow => passwdRow_selects hrow) _ _ _ hscan
  obtain ⟨hselected', -⟩ := @selected_of_foldlM _
    (shadowRow principal allowLocked allowUnusable) id (named principal.login) (fun _ => True)
    (fun _ _ _ hrow => ⟨shadowRow_selects hrow, fun _ => trivial⟩) _ _ _ hcredential
  rw [haccount] at hselected
  have hone := filter_of_selected hselected
  have hone' := filter_of_selected hselected'
  rw [namedLines_of_text hpasswd] at hone
  rw [namedLines_of_text hshadow] at hone'
  obtain ⟨l, hl, rfl⟩ := eq_singleton_of_map hone
  obtain ⟨m, hm, rfl⟩ := eq_singleton_of_map hone'
  have hmem : lineText l ∈ (textLines passwdText).filter (named principal.login) := by
    rw [namedLines_of_text hpasswd, hl]
    exact List.mem_cons_self
  rw [List.mem_filter] at hmem
  exact ⟨l, m, hl, hm, hshape _ hmem.1 hmem.2, rfl⟩

/-! ## What a message tells -/

theorem fields_plain {row f : List Char} (h : f ∈ fields row) : ':' ∉ f :=
  fun hmem => (mem_splitOn h hmem).2 rfl

theorem joined_fields (row : List Char) : joined (fields row) = row := List.intercalate_splitOn ':'

theorem fields_joined_of {fs : List (List Char)} (hne : fs ≠ []) (h : ∀ f ∈ fs, ':' ∉ f) :
    fields (joined fs) = fs :=
  List.splitOn_intercalate ':' h hne

theorem shell_inj {shell shell' f f' : List Char} (h : shellAllowed shell = true)
    (h' : shellAllowed shell' = true) (heq : shell ++ '\x00' :: f = shell' ++ '\x00' :: f') :
    shell = shell' ∧ f = f' := by
  simp only [shellAllowed, Bool.or_eq_true, beq_iff_eq] at h h'
  rcases h with rfl | rfl <;> rcases h' with rfl | rfl <;> simp_all

theorem joined_singleton (f : List Char) : joined [f] = f := List.intercalate_singleton

theorem joined_append_cons {gs : List (List Char)} (s g : List Char) (c : Char) :
    ∀ fs : List (List Char),
      joined (fs ++ [s]) ++ c :: joined (g :: gs) = joined (fs ++ (s ++ c :: g) :: gs)
  | [] => by
    rw [List.nil_append, List.nil_append, joined_singleton]
    by_cases hgs : gs = []
    · rw [hgs, joined_singleton, joined_singleton]
    · rw [joined_cons g hgs, joined_cons _ hgs, List.append_assoc, List.cons_append]
  | f :: fs => by
    rw [List.cons_append, List.cons_append, joined_cons f (by simp), joined_cons f (by simp),
      List.append_assoc, List.cons_append, joined_append_cons s g c fs]

/-- The fields of two rows joined at a NUL. -/
theorem fields_joined_rows {a b s g : List Char} {fs gs : List (List Char)}
    (ha : fields a = fs ++ [s]) (hb : fields b = g :: gs) :
    fields (a ++ '\x00' :: b) = fs ++ (s ++ '\x00' :: g) :: gs := by
  have hjoin : a ++ '\x00' :: b = joined (fs ++ (s ++ '\x00' :: g) :: gs) := by
    rw [← joined_append_cons, ← ha, ← hb, joined_fields, joined_fields]
  have hplain : ∀ f ∈ fs ++ (s ++ '\x00' :: g) :: gs, ':' ∉ f := by
    have hpa : ∀ f ∈ fs ++ [s], ':' ∉ f := fun f hf => fields_plain (ha ▸ hf)
    have hpb : ∀ f ∈ g :: gs, ':' ∉ f := fun f hf => fields_plain (hb ▸ hf)
    rw [List.forall_mem_append, List.forall_mem_cons] at hpa ⊢
    rw [List.forall_mem_cons] at hpb
    refine ⟨hpa.1, ?_, hpb.2⟩
    rw [List.mem_append, List.mem_cons]
    rintro (hmem | hmem | hmem)
    · exact hpa.2.1 hmem
    · exact absurd hmem (by decide)
    · exact hpb.1 hmem
  rw [hjoin, fields_joined_of (by simp) hplain]

/-- **Rows joined at a NUL** are told apart by their fields. -/
theorem joined_rows_inj {a a' b b' : List Char} (ha : PasswdShape a) (ha' : PasswdShape a')
    (h : a ++ '\x00' :: b = a' ++ '\x00' :: b') : a = a' ∧ b = b' := by
  obtain ⟨fs, shell, hlen, hfields, hshell⟩ := ha
  obtain ⟨fs', shell', hlen', hfields', hshell'⟩ := ha'
  obtain ⟨g, gs, hg⟩ := List.exists_cons_of_ne_nil (List.splitOn_ne_nil ':' b)
  obtain ⟨g', gs', hg'⟩ := List.exists_cons_of_ne_nil (List.splitOn_ne_nil ':' b')
  have hall : fs ++ (shell ++ '\x00' :: g) :: gs = fs' ++ (shell' ++ '\x00' :: g') :: gs' := by
    rw [← fields_joined_rows hfields hg, ← fields_joined_rows hfields' hg', h]
  -- six fields stand in front of the login shell in both
  obtain ⟨rfl, hrest⟩ := List.append_inj hall (hlen.trans hlen'.symm)
  obtain ⟨hseam, rfl⟩ := List.cons.inj hrest
  obtain ⟨rfl, rfl⟩ := shell_inj hshell hshell' hseam
  constructor
  · rw [← joined_fields a, hfields, ← hfields', joined_fields]
  · rw [← joined_fields b, show fields b = g :: gs from hg, ← show fields b' = g :: gs from hg',
      joined_fields]

theorem rowsText_inj {a a' b b' : List Char} (ha : PasswdShape a) (ha' : PasswdShape a')
    (h : rowsText a b = rowsText a' b') : a = a' ∧ b = b' := by
  have hseam : ∀ x y : List Char, bytesOf x ++ [0] ++ bytesOf y = bytesOf (x ++ '\x00' :: y) := by
    intro x y
    rw [bytesOf_append, List.append_assoc, bytesOf_cons (by decide)]
    rfl
  unfold rowsText at h
  rw [List.append_assoc, List.append_assoc, List.append_assoc, List.append_assoc,
    List.append_cancel_left_eq, ← List.append_assoc, ← List.append_assoc, hseam, hseam] at h
  exact joined_rows_inj ha ha' (bytesOf_inj h)

/-- The rows named after the login are the same, up to a CR in front of the LF. -/
def SameUpToCr (login : String) (content content' : Bytes) : Prop :=
  (namedLines login content).map lineText = (namedLines login content').map lineText

/-- Both rows named after the login end with CR and LF, or neither does. -/
def SameEnds (login : String) (content content' : Bytes) : Prop :=
  (namedLines login content).map endsCrLf = (namedLines login content').map endsCrLf

theorem exists_message {sha256 : Bytes → Vector UInt8 32} {digest : Vector UInt8 32}
    (h : Accepts sha256 passwd shadow principal digest) :
    ∃ message ∈ observed passwd shadow principal, digest = sha256 message := by
  cases h with
  | live allowLocked h =>
    obtain ⟨message, hmessage, hdigest⟩ := bind_eq_ok.mp h
    exact ⟨message, ⟨allowLocked, false, hmessage⟩, (pure_eq_ok.mp hdigest).symm⟩
  | recovery h =>
    obtain ⟨-, -, h⟩ := bind_eq_ok.mp h
    obtain ⟨message, hmessage, hdigest⟩ := bind_eq_ok.mp h
    exact ⟨message, ⟨true, true, hmessage⟩, (pure_eq_ok.mp hdigest).symm⟩

/-- **Equal digests** are those of rows that are the same up to a CR in front of the LF. -/
theorem digest_eq_iff {sha256 : Bytes → Vector UInt8 32} {digest digest' : Vector UInt8 32}
    (h : Accepts sha256 passwd shadow principal digest)
    (h' : Accepts sha256 passwd' shadow' principal digest')
    (hfree : Set.InjOn sha256
      (observed passwd shadow principal ∪ observed passwd' shadow' principal)) :
    digest = digest' ↔ SameUpToCr principal.login passwd passwd' ∧
      SameUpToCr principal.login shadow shadow' := by
  obtain ⟨message, hobserved, rfl⟩ := exists_message h
  obtain ⟨message', hobserved', rfl⟩ := exists_message h'
  rw [hfree.eq_iff (.inl hobserved) (.inr hobserved')]
  obtain ⟨_, _, hmessage⟩ := hobserved
  obtain ⟨_, _, hmessage'⟩ := hobserved'
  obtain ⟨l, m, hl, hm, hshape, rfl⟩ := accountRows_eq_ok hmessage
  obtain ⟨l', m', hl', hm', hshape', rfl⟩ := accountRows_eq_ok hmessage'
  simp only [SameUpToCr, hl, hl', hm, hm', List.map_cons, List.map_nil, List.cons.injEq, and_true]
  exact ⟨rowsText_inj hshape hshape', fun ⟨ha, hb⟩ => by rw [ha, hb]⟩

/-- **Rows that are the same up to a CR** are the same exactly when they end the same way. -/
theorem namedRows_eq_iff {content content' : Bytes} (h : SameUpToCr login content content') :
    namedRows login content = namedRows login content' ↔ SameEnds login content content' := by
  unfold SameUpToCr at h
  unfold namedRows SameEnds
  generalize namedLines login content = ls at h ⊢
  generalize namedLines login content' = ls' at h ⊢
  induction ls generalizing ls' with
  | nil =>
    rw [List.map_nil, eq_comm, List.map_eq_nil_iff] at h
    rw [h]
    simp
  | cons l ls ih =>
    cases ls' with
    | nil => cases h
    | cons l' ls' =>
      simp only [List.map_cons, List.cons.injEq] at h ⊢
      rw [delimited_inj h.1, ih _ h.2]

/-! ## Commitments -/

theorem beBytes32_inj {m n : Nat} (hm : m < 2 ^ 32) (hn : n < 2 ^ 32)
    (h : beBytes32 m = beBytes32 n) : m = n := by
  simp only [beBytes32, List.cons.injEq, and_true] at h
  obtain ⟨h₃, h₂, h₁, h₀⟩ := h
  have hmod : ∀ a b : Nat, UInt8.ofNat a = UInt8.ofNat b → a % 256 = b % 256 := fun a b h => by
    simpa using congrArg UInt8.toNat h
  have := hmod _ _ h₃
  have := hmod _ _ h₂
  have := hmod _ _ h₁
  have := hmod _ _ h₀
  omega

theorem length_hexPairs {n : Nat} {cs : List Char} (h : cs.length = n * 2) :
    (hexPairs cs).length = n := by
  induction n generalizing cs with
  | zero =>
    rw [List.eq_nil_of_length_eq_zero (by omega : cs.length = 0)]
    rfl
  | succ n ih =>
    obtain ⟨a, b, cs, rfl, hcs⟩ := exists_pair_of_length h
    rw [hexPairs, List.length_cons, ih hcs]

theorem length_of_decode {n : Nat} {value : String} {bytes : Bytes}
    (h : decode n value = .ok bytes) : bytes.length = n := by
  simp only [decode, bind_eq_ok, refuseIf_eq_ok, Bool.or_eq_false_iff, bne_eq_false_iff_eq,
    Bool.not_eq_false', List.all_eq_true, pure_eq_ok] at h
  obtain ⟨_, ⟨hsize, hdigits⟩, rfl⟩ := h
  refine length_hexPairs ?_
  rw [← utf8ByteSize_ofList_ascii fun c hmem => utf8Size_of_lowerHex (hdigits c hmem),
    String.ofList_toList, hsize]

/-- **A commitment is to one principal.** -/
theorem rowsMessage_inj {installation : String} {p p' : Principal} {d d' : Vector UInt8 32}
    {message : Bytes} (hu : p.uid < 2 ^ 32) (hu' : p'.uid < 2 ^ 32)
    (h : rowsMessage installation p d = .ok message)
    (h' : rowsMessage installation p' d' = .ok message) : p.id = p'.id ∧ p.uid = p'.uid := by
  simp only [rowsMessage, bind_eq_ok, pure_eq_ok] at h h'
  obtain ⟨owner, howner, id, hid, rfl⟩ := h
  obtain ⟨owner', howner', id', hid', heq⟩ := h'
  rw [howner] at howner'
  cases howner'
  have hlen := length_of_decode hid
  have hlen' := length_of_decode hid'
  simp only [List.append_assoc, List.append_cancel_left_eq] at heq
  obtain ⟨rfl, hrest⟩ := List.append_inj heq (hlen'.trans hlen.symm)
  obtain ⟨huid, -⟩ := List.append_inj hrest rfl
  exact ⟨decode_inj hid hid', beBytes32_inj hu hu' huid.symm⟩

/-- **The observation pins the rows** of an account up to one thing: equal digests leave the rows of
both files equal, unless what sets them apart is a CR in front of the LF in only one of them. The
commitments of two principals differ. -/
theorem digest_pins_iff (sha256 : Bytes → Vector UInt8 32) :
    (∀ (principal : Principal) (passwd shadow passwd' shadow' : Bytes)
        (digest digest' : Vector UInt8 32),
      Accepts sha256 passwd shadow principal digest →
      Accepts sha256 passwd' shadow' principal digest' →
      Set.InjOn sha256 (observed passwd shadow principal ∪ observed passwd' shadow' principal) →
      ((digest = digest' → namedRows principal.login passwd = namedRows principal.login passwd' ∧
          namedRows principal.login shadow = namedRows principal.login shadow') ↔
        (SameUpToCr principal.login passwd passwd' ∧ SameUpToCr principal.login shadow shadow' →
          SameEnds principal.login passwd passwd' ∧ SameEnds principal.login shadow shadow'))) ∧
    ∀ (installation : String) (p p' : Principal) (d d' : Vector UInt8 32) (c c' : String),
      p.uid < 2 ^ 32 → p'.uid < 2 ^ 32 →
      rowsCommitment sha256 installation p d = .ok c →
      rowsCommitment sha256 installation p' d' = .ok c' →
      Set.InjOn sha256 {m | rowsMessage installation p d = .ok m ∨
        rowsMessage installation p' d' = .ok m} →
      p.id ≠ p'.id ∨ p.uid ≠ p'.uid → c ≠ c' := by
  refine ⟨fun principal passwd shadow passwd' shadow' digest digest' h h' hfree => ?_,
    fun installation p p' d d' c c' hu hu' h h' hfree hne heq => ?_⟩
  · rw [digest_eq_iff h h' hfree]
    exact forall_congr' fun ⟨hpasswd, hshadow⟩ => by
      rw [namedRows_eq_iff hpasswd, namedRows_eq_iff hshadow]
  · obtain ⟨message, hmessage, hc⟩ := bind_eq_ok.mp h
    obtain ⟨message', hmessage', hc'⟩ := bind_eq_ok.mp h'
    rw [pure_eq_ok] at hc hc'
    have hhash : sha256 message = sha256 message' := by
      apply Vector.toList_inj.mp
      apply hex_injective
      rw [hc, hc', heq]
    obtain rfl := hfree (.inl hmessage) (.inr hmessage') hhash
    obtain ⟨hid, huid⟩ := rowsMessage_inj hu hu' hmessage hmessage'
    exact hne.elim (fun h => h hid) fun h => h huid

def sampleHuman : Principal := ⟨repeatText "12" 32, 1, "human", 1001, true⟩

def sampleRegistry : Registry := ⟨1, repeatText "34" 32, [sampleHuman], none⟩

/-- The account file, with the given end of its line. -/
def sampleAccount (stop : String) : Bytes :=
  bytesOf ("human:x:1001:1001:Human:/home/human:/bin/bash" ++ stop).toList

def sampleCredential : Bytes := bytesOf "human:$6$public$fixture:20000:0:99999:7:::\n".toList

/-- **A CR is not pinned**: the account file whose row ends with CR and LF has the digest of the one
whose row ends with LF, whatever the hash. -/
theorem crlf_row_differs :
    sampleRegistry.validate = .ok () ∧ sampleHuman ∈ sampleRegistry.principals ∧
    (∀ sha256 : Bytes → Vector UInt8 32, ∃ digest,
      accountRowsDigest sha256 (sampleAccount "\n") sampleCredential sampleHuman false =
        .ok digest ∧
      accountRowsDigest sha256 (sampleAccount "\r\n") sampleCredential sampleHuman false =
        .ok digest) ∧
    namedRows "human" (sampleAccount "\n") ≠ namedRows "human" (sampleAccount "\r\n") := by
  refine ⟨by decide +kernel, List.mem_cons_self, fun sha256 => ?_, by decide +kernel⟩
  have hsame : accountRows (sampleAccount "\r\n") sampleCredential sampleHuman false false =
      accountRows (sampleAccount "\n") sampleCredential sampleHuman false false := by
    decide +kernel
  obtain ⟨message, hmessage⟩ : ∃ message,
      accountRows (sampleAccount "\n") sampleCredential sampleHuman false false = .ok message :=
    ⟨rowsText "human:x:1001:1001:Human:/home/human:/bin/bash".toList
      "human:$6$public$fixture:20000:0:99999:7:::".toList, by decide +kernel⟩
  refine ⟨sha256 message, ?_, ?_⟩
  · rw [accountRowsDigest, accountRowsDigestInner, hmessage]
    rfl
  · rw [accountRowsDigest, accountRowsDigestInner, hsame, hmessage]
    rfl

end LumaOS.Governance
