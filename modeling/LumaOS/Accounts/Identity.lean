import LumaOS.Accounts.Buffer
import LumaOS.Text.Affix

/-!
# The identity files of an account

`rows`, `vacancy`, `append` and `replacements` of `account_creation.rs`, and `rows`,
`remove_account`, `member_list`, `remove_groups` and `transform` of `account_deletion.rs`. The two
`rows` run one loop (`rowsOf`) with other refusals. The registry file, which no deletion reads, is
left out.
-/

namespace LumaOS.Accounts

open LumaOS.Base LumaOS.Text LumaOS.Json

inductive File
  | passwd
  | shadow
  | group
  | gshadow
  deriving DecidableEq, Repr

/-- How many fields a row has. -/
def File.columns : File → Nat
  | passwd => 7
  | shadow => 9
  | group | gshadow => 4

/-- The fields that list accounts. -/
def File.lists : File → List Nat
  | passwd | shadow => []
  | group => [3]
  | gshadow => [2, 3]

/-- `BTreeMap<String, PrivateBuffer>` with the names that every caller puts in. -/
structure Files where
  passwd : Bytes
  shadow : Bytes
  group : Bytes
  gshadow : Bytes
  deriving DecidableEq

def Files.get (files : Files) : File → Bytes
  | .passwd => files.passwd
  | .shadow => files.shadow
  | .group => files.group
  | .gshadow => files.gshadow

structure Principal where
  login : List Char
  uid : Nat
  deriving DecidableEq

/-- `login` of `principal.rs`. -/
def login (value : List Char) : Bool :=
  !value.isEmpty && (bytesOf value).length ≤ 32 && value.head?.any Char.isLower &&
    value.all fun c => c.isLower || c.isDigit || c == '_' || c == '-'

/-- The loop of both `rows`. Every line ends with a newline: it is what `row[..row.len() - 1]`
takes off. -/
def rowsOf (count : Nat) (bad : List Char → Bool) (invalid : String) :
    List (List Char) → List (List Char) → Result (List Record)
  | _, [] => pure []
  | names, row :: rest => do
    let columns := fields row.dropLast
    refuseIf (columns.length != count) invalid
    let first ← expect columns[0]? outOfBounds
    refuseIf (first.isEmpty || names.contains first || bad row) invalid
    let records ← rowsOf count bad invalid (first :: names) rest
    pure (columns :: records)

/-! ## Creation -/

/-- `rows` of `account_creation.rs`. -/
def creationRows (input : Bytes) (count : Nat) : Result (List Record) := do
  refuseIf (input.isEmpty || !endsWithNewline input || input.any fun b => b == 0 || b == 13)
    "incomplete account creation source"
  let text ← okOr (utf8Text input) "invalid account encoding"
  rowsOf count (fun _ => false) "ambiguous account creation source" [] (lines text.toList)

/-- What `vacancy` collects. -/
structure Taken where
  reserved : List Nat
  passwdIds : List Nat

/-- A field that must be a `u32`. -/
def number (row : Record) (column : Nat) : Result Nat := do
  let value ← expect row[column]? outOfBounds
  okOr (parseU32 (String.ofList value)) invalidDigit

/-- What `vacancy` does with a row. -/
def takeRow (file : File) (name : List Char) (taken : Taken) (row : Record) : Result Taken := do
  let first ← expect row[0]? outOfBounds
  refuseIf (first == name) "account or group name already exists"
  match file with
  | .passwd => do
    let uid ← number row 2
    refuseIf (taken.passwdIds.contains uid) "duplicate account uid"
    let gid ← number row 3
    pure ⟨gid :: uid :: taken.reserved, uid :: taken.passwdIds⟩
  | .group => do
    let gid ← number row 2
    pure { taken with reserved := gid :: taken.reserved }
  | .shadow | .gshadow => pure taken

/-- What `vacancy` does with a file. -/
def takeFile (before : Files) (name : List Char) (taken : Taken) (file : File) : Result Taken := do
  let records ← creationRows (before.get file) file.columns
  records.foldlM (takeRow file name) taken

/-- The loop over the registry. -/
def takeRegistry (name : List Char) : List Nat → List Principal → Result (List Nat)
  | reserved, [] => pure reserved
  | reserved, record :: rest => do
    refuseIf (record.login == name) "account name remains reserved in installation history"
    takeRegistry name (record.uid :: reserved) rest

/-- `vacancy`. -/
def vacancy (before : Files) (registry : List Principal) (name : List Char) : Result Nat := do
  let reserved ← takeRegistry name [1001] registry
  let taken ← [File.passwd, .shadow, .group, .gshadow].foldlM (takeFile before name)
    (Taken.mk reserved [])
  okOr ((List.range' 1000 59000).find? fun uid => !taken.reserved.contains uid)
    "account uid capacity exhausted"

/-- The loops that copy pieces into a buffer. -/
def putPieces (output : Bytes) (offset : Nat) : List Bytes → Result Bytes
  | [] => pure output
  | piece :: rest => do
    let output ← copyAt output offset (offset + piece.length) piece
    putPieces output (offset + piece.length) rest

/-- The size of pieces. -/
def pieceSizes (pieces : List Bytes) : Nat := (pieces.map List.length).sum

/-- `append`. -/
def append (before : Bytes) (pieces : List Bytes) : Result Bytes := do
  let output ← privateBuffer (before.length + pieceSizes pieces)
  let output ← copyAt output 0 before.length before
  putPieces output before.length pieces

/-- What `replacements` reads of an intent. `Intent::validate` and `append_account` checked the
login. -/
structure Intent where
  principal : Principal
  registryBefore : List Principal
  checked : login principal.login = true

/-- `{uid}`. -/
def printed (uid : Nat) : List Char := Nat.toDigits 10 uid

/-- `format!("{name}:x:{uid}:{uid}:Luma local user:/home/{name}:/bin/bash\n")`. -/
def passwdText (name : List Char) (uid : Nat) : List Char :=
  name ++ ":x:".toList ++ printed uid ++ ":".toList ++ printed uid ++
    ":Luma local user:/home/".toList ++ name ++ ":/bin/bash\n".toList

/-- `format!("{name}:x:{uid}:\n")`. -/
def groupText (name : List Char) (uid : Nat) : List Char :=
  name ++ ":x:".toList ++ printed uid ++ ":\n".toList

/-- `format!("{name}:!::\n")`. -/
def gshadowText (name : List Char) : List Char := name ++ ":!::\n".toList

/-- `replacements`. -/
def replacements (before : Files) (intent : Intent) (crypt : Bytes) : Result Files := do
  validateHash crypt
  let name := intent.principal.login
  let vacant ← vacancy before intent.registryBefore name
  refuseIf (vacant != intent.principal.uid)
    "account uid no longer matches the reserved vacant selection"
  let uid := intent.principal.uid
  let passwd ← append before.passwd [bytesOf (passwdText name uid)]
  let group ← append before.group [bytesOf (groupText name uid)]
  let gshadow ← append before.gshadow [bytesOf (gshadowText name)]
  let shadow ← append before.shadow
    [bytesOf (name ++ ":!".toList), crypt, bytesOf ":0:0:99999:7:::\n".toList]
  pure { passwd, shadow, group, gshadow }

/-! ## Deletion -/

/-- `row.bytes().any(|b| b == 0 || b == b'\r')`. -/
def unclean (row : List Char) : Bool := (bytesOf row).any fun b => b == 0 || b == 13

/-- `rows` of `account_deletion.rs`. -/
def deletionRows (input : Bytes) (count : Nat) : Result (List Record) := do
  refuseIf (input.isEmpty || input.length > maxBlob || !endsWithNewline input)
    "incomplete or oversized identity records"
  let text ← okOr (utf8Text input) "invalid identity encoding"
  rowsOf count unclean "invalid or duplicate identity record" [] (lines text.toList)

/-- A new buffer with pieces. -/
def pieced (pieces : List Bytes) : Result Bytes := do
  let output ← privateBuffer (pieceSizes pieces)
  putPieces output 0 pieces

/-- `remove_account`. -/
def removeAccount (input : Bytes) (name : List Char) (count : Nat) : Result Bytes := do
  let parsed ← deletionRows input count
  refuseIf ((parsed.filter fun row => row.head? == some name).length != 1)
    "deletion requires an unambiguous existing account"
  let text ← okOr (utf8Text input) "invalid utf-8 sequence"
  let retained := (lines text.toList).filter fun row => (fields row).head? != some name
  pieced (retained.map bytesOf)

/-- `member_list`. -/
def memberList (value : List Char) : Result (List (List Char)) :=
  if value.isEmpty then pure []
  else do
    let members := value.splitOn ','
    refuseIf (members.any List.isEmpty || !decide members.Nodup) "ambiguous group membership"
    pure members

/-- The loop over the members of a list. -/
def memberPieces (name : List Char) : Bool → List (List Char) → List Bytes
  | _, [] => []
  | first, member :: rest =>
    if member != name then
      (if first then [] else [[44]]) ++ bytesOf member :: memberPieces name false rest
    else memberPieces name first rest

/-- A field behind its colon. `memberships` has the lists by their columns. -/
def columnPieces (name : List Char) (memberships : List (Nat × List (List Char)))
    (value : List Char) (column : Nat) : List Bytes :=
  (if column > 0 then [[58]] else []) ++
    match memberships.lookup column with
    | some members => memberPieces name true members
    | none => [bytesOf value]

/-- The lists of a row. -/
def membershipsOf (lists : List Nat) (row : Record) : Result (List (Nat × List (List Char))) :=
  lists.mapM fun column => do
    let members ← memberList (← expect row[column]? outOfBounds)
    pure (column, members)

/-- `row[2].parse::<u32>()`, which only the group file has. -/
def groupId (secret : Bool) (row : Record) : Result (Option Nat) :=
  if secret then pure none
  else do
    let gid ← number row 2
    pure (some gid)

/-- One row of `remove_groups`: whether the group of the account was seen, and the pieces. -/
def removeRow (name : List Char) (secret : Bool) (lists : List Nat) (gid : Nat)
    (s : Bool × List Bytes) (row : Record) : Result (Bool × List Bytes) := do
  let memberships ← membershipsOf lists row
  let first ← expect row[0]? outOfBounds
  if first == name then do
    refuseIf (memberships.any fun list => list.2.any (· != name))
      "deletion cannot remove a shared or mismatched private group"
    let id ← groupId secret row
    refuseIf (id.any (· != gid)) "deletion cannot remove a shared or mismatched private group"
    pure (true, s.2)
  else do
    let id ← groupId secret row
    refuseIf (id.any (· == gid)) "ambiguous private group gid"
    let pieces := (row.mapIdx fun column value => columnPieces name memberships value column).flatten
    pure (s.1, s.2 ++ pieces ++ [[10]])

/-- `remove_groups`. -/
def removeGroups (input : Bytes) (name : List Char) (secret : Bool) (gid : Nat) :
    Result Bytes := do
  let parsed ← deletionRows input 4
  let lists := if secret then [2, 3] else [3]
  let (selected, pieces) ← parsed.foldlM (removeRow name secret lists gid) (false, [])
  refuseIf (!selected) "missing account private group"
  pieced pieces

/-- The loop over the accounts. -/
def accountIds : List Nat → List Record → Result Unit
  | _, [] => pure ()
  | uids, row :: rest => do
    let uid ← number row 2
    refuseIf (uids.contains uid) "ambiguous local account uid"
    let _ ← number row 3
    accountIds (uid :: uids) rest

/-- Whether another account has the group as its own. -/
def sharedGroup (name : List Char) (gid : Nat) (passwd : List Record) : Bool :=
  passwd.any fun row => row.head? != some name &&
    row[3]?.any fun value => parseU32 (String.ofList value) == some gid

/-- `transform`. -/
def transform (before : Files) (record : Principal) : Result Files := do
  let passwd ← deletionRows before.passwd 7
  accountIds [] passwd
  let target ← okOr (passwd.find? fun row => row.head? == some record.login)
    "missing deletion account"
  let gid ← number target 3
  refuseIf (gid != record.uid || sharedGroup record.login gid passwd)
    "deletion requires an unshared account-owned primary group"
  let passwd ← removeAccount before.passwd record.login 7
  let shadow ← removeAccount before.shadow record.login 9
  let group ← removeGroups before.group record.login false gid
  let gshadow ← removeGroups before.gshadow record.login true gid
  pure { passwd, shadow, group, gshadow }

end LumaOS.Accounts
