import CommandCenter.Library.Table
import CommandCenter.Storage.Model
import Mathlib.Data.Char
import Mathlib.Data.List.Lex

/-!
# The SQLite backend

`crates/bnetcc-storage-sqlite/src/lib.rs`: the tables and the statements of each method. An
`INTEGER` column holds an `i64`, a row of `accounts` its `id`; the rows of `characters` are in the
order of theirs, which is not read otherwise. A statement or a transaction that fails leaves the
tables as they were. What SQLite does is taken from its documentation:

* `AUTOINCREMENT` gives an id one above the largest that the table has had, and fails once that is
  the largest there is.
* A negative `OFFSET` is zero.
-/

namespace CommandCenter.Storage

open Rust CommandCenter.Core Library

/-- The derived order. -/
instance : LinearOrder AttrKey where
  le a b := a.text ≤ b.text
  le_refl a := le_refl a.text
  le_trans _ _ _ := le_trans
  le_antisymm a b hab hba := by
    cases a
    cases b
    cases le_antisymm hab hba
    rfl
  le_total a b := le_total a.text b.text
  toDecidableLE a b := inferInstanceAs (Decidable (a.text ≤ b.text))
  toDecidableEq := inferInstance

/-! ## Rows -/

/-- `cred_kind`, `cred_a` and `cred_b`. -/
structure CredentialColumns where
  kind : Text
  a : List UInt8
  b : Option (List UInt8)

structure AccountRow where
  id : Int
  name : Text
  nameLower : Text
  credential : CredentialColumns
  createdAt : Int

structure AttrRow where
  accountId : Int
  key : Text
  value : Text

structure BanRow where
  accountId : Int
  scope : Text
  reason : Text
  appliedAt : Int
  expiresAt : Option Int

structure CharacterRow where
  accountId : Int
  name : Text
  nameLower : Text
  /-- `class` in the source. -/
  heroClass : Int
  status : Int
  level : Int
  progression : Int
  createdAt : Int
  lastPlayed : Int
  save : Option (List UInt8)

/-- The primary key of `attrs`. -/
def AttrRow.primaryKey (row : AttrRow) : Int × Text := (row.accountId, row.key)

/-- The primary key of `bans`. -/
def BanRow.primaryKey (row : BanRow) : Int × Text := (row.accountId, row.scope)

def credentialColumns : Credential → CredentialColumns
  | .xsha1 digest => ⟨"xsha1".toList, digest.toList, none⟩
  | .srp salt verifier => ⟨"srp".toList, salt.toList, some verifier.toList⟩

/-- `copy_from_slice` into an array of `n` bytes, which panics if the slice has another length. -/
def copyFromSlice (n : Nat) (bytes : List UInt8) : Result (Vector UInt8 n) :=
  if h : bytes.length = n then .ok ⟨bytes.toArray, h⟩
  else .error (.backend "copy_from_slice".toList)

def credentialOf (columns : CredentialColumns) : Result Credential :=
  if columns.kind = "srp".toList then do
    let salt ← copyFromSlice 32 columns.a
    let verifier ← copyFromSlice 32 (columns.b.getD [])
    return .srp salt verifier
  else do
    let digest ← copyFromSlice 20 columns.a
    return .xsha1 digest

theorem credentialOf_columns (c : Credential) : credentialOf (credentialColumns c) = .ok c := by
  cases c with
  | xsha1 digest =>
    have hkind : ¬ "xsha1".toList = "srp".toList := by decide
    obtain ⟨bytes, hsize⟩ := digest
    have hlength : bytes.toList.length = 20 := hsize
    rw [credentialOf, credentialColumns, if_neg hkind, Vector.toList_mk, copyFromSlice,
      dif_pos hlength]
    rfl
  | srp salt verifier =>
    obtain ⟨first, hfirst⟩ := salt
    obtain ⟨second, hsecond⟩ := verifier
    have hlength : first.toList.length = 32 := hfirst
    have hlength' : second.toList.length = 32 := hsecond
    rw [credentialOf, credentialColumns, if_pos rfl, Vector.toList_mk, Vector.toList_mk,
      Option.getD_some, copyFromSlice, dif_pos hlength, copyFromSlice, dif_pos hlength']
    rfl

def rowToAccount (row : AccountRow) : Result Account := do
  let credential ← credentialOf row.credential
  return ⟨asU64 row.id, row.name, credential, asU64 row.createdAt⟩

/-- A value outside `u8` is clamped. -/
def columnByte (value : Int) : UInt8 := .ofNat (min (max value 0) 255).toNat

def rowToCharacter (row : CharacterRow) : Character where
  account := asU64 row.accountId
  name := row.name
  heroClass := columnByte row.heroClass
  status := columnByte row.status
  level := columnByte row.level
  progression := columnByte row.progression
  createdAt := asU64 row.createdAt
  lastPlayed := asU64 row.lastPlayed
  save := row.save

/-- The parameters of an insertion into `characters`. -/
def characterRow (c : Character) : CharacterRow where
  accountId := asI64 c.account
  name := c.name
  nameLower := c.name.toAsciiLowercase
  heroClass := c.heroClass.toNat
  status := c.status.toNat
  level := c.level.toNat
  progression := c.progression.toNat
  createdAt := asI64 c.createdAt
  lastPlayed := asI64 c.lastPlayed
  save := c.save

def scopeStr : BanScope → Text
  | .node => "node".toList
  | .network => "network".toList

/-- The parameters of an insertion into `bans`. -/
def banRow (ban : Ban) : BanRow :=
  ⟨asI64 ban.account, scopeStr ban.scope, ban.reason, asI64 ban.appliedAt,
    ban.expiresAt.map asI64⟩

/-- A row that was selected for the account. -/
def rowToBan (id : AccountId) (row : BanRow) : Ban :=
  ⟨id, if row.scope = "network".toList then .network else .node, row.reason, asU64 row.appliedAt,
    row.expiresAt.map asU64⟩

/-! ## The store -/

structure SqliteStorage where
  accounts : List AccountRow
  /-- The largest id that `accounts` has had. -/
  accountSeq : Int
  attrs : List AttrRow
  bans : List BanRow
  /-- `characters`. -/
  characterRows : List CharacterRow
  /-- The largest id that `characters` has had. -/
  characterSeq : Int
  /-- Whether an insertion that is ignored uses an id up, which SQLite leaves open. -/
  ignoredUsesId : Bool

/-- The largest `i64`. -/
def maxI64 : Int := 2 ^ 63 - 1

def autoincrement (seq : Int) : Result Int :=
  if seq < maxI64 then .ok (seq + 1) else .error (.backend "database or disk is full".toList)

def foreignKeyFailed : StorageError := .backend "FOREIGN KEY constraint failed".toList

/-- The attributes of a new account, inserted one by one. -/
def insertAttrs (id : Int) (rows : List AttrRow) :
    List (Σ _ : AttrKey, Text) → Result (List AttrRow)
  | [] => .ok rows
  | attr :: rest =>
    match insertOrIgnore AttrRow.primaryKey ⟨id, attr.1.text, attr.2⟩ rows with
    | some rows => insertAttrs id rows rest
    | none =>
      .error (.backend "UNIQUE constraint failed: attrs.account_id, attrs.key".toList)

/-- The attributes of an account, written one by one. -/
def upsertAttrs (id : Int) (rows : List AttrRow) (attrs : List (Σ _ : AttrKey, Text)) :
    List AttrRow :=
  attrs.foldl (fun rows attr => upsert AttrRow.primaryKey ⟨id, attr.1.text, attr.2⟩ rows) rows

namespace SqliteStorage

/-- A database as the migrations leave it. -/
def new (ignoredUsesId : Bool) : SqliteStorage := ⟨[], 0, [], [], [], 0, ignoredUsesId⟩

/-- `query_row` on a select by a unique column. -/
def accountWhere (s : SqliteStorage) (row : Option AccountRow) :
    Result (Option Account) × SqliteStorage :=
  match row with
  | none => (.ok none, s)
  | some row => ((rowToAccount row).map some, s)

def accountByName (s : SqliteStorage) (name : Text) : Result (Option Account) × SqliteStorage :=
  s.accountWhere (selectKey AccountRow.nameLower name.toAsciiLowercase s.accounts)

def accountById (s : SqliteStorage) (id : AccountId) : Result (Option Account) × SqliteStorage :=
  s.accountWhere (selectKey AccountRow.id (asI64 id) s.accounts)

def createAccount (s : SqliteStorage) (req : NewAccount) : Result Account × SqliteStorage :=
  match validateAccountName req.name with
  | .error e => (.error e, s)
  | .ok () =>
    match autoincrement s.accountSeq with
    | .error e => (.error e, s)
    | .ok id =>
      match insertOrIgnore AccountRow.nameLower ⟨id, req.name, req.name.toAsciiLowercase,
          credentialColumns req.credential, asI64 req.createdAt⟩ s.accounts with
      | none => (.error .nameTaken, s)
      | some accounts =>
        match
          if req.attrs.isEmpty then .ok s.attrs
          else insertAttrs id s.attrs (Map.Walk.ascending.order req.attrs)
        with
        | .error e => (.error e, s)
        | .ok attrs =>
          (.ok ⟨asU64 id, req.name, req.credential, req.createdAt⟩,
            { s with accounts, accountSeq := id, attrs })

/-- Whether an account has the id: an update counts such rows, and a foreign key is checked for
one. -/
def hasAccount (s : SqliteStorage) (id : AccountId) : Bool :=
  s.accounts.any fun row => row.id = asI64 id

def setCredential (s : SqliteStorage) (id : AccountId) (credential : Credential) :
    Result Unit × SqliteStorage :=
  if s.hasAccount id then
    (.ok (),
      { s with
        accounts := s.accounts.map fun row =>
          if row.id = asI64 id then { row with credential := credentialColumns credential }
          else row })
  else (.error .noSuchAccount, s)

/-- The keys that are asked for, one select each. -/
def pickAttrs (s : SqliteStorage) (id : AccountId) (out : AttrMap) : List AttrKey → AttrMap
  | [] => out
  | key :: keys =>
    match selectKey AttrRow.primaryKey (asI64 id, key.text) s.attrs with
    | some row => pickAttrs s id (out.insert key row.value) keys
    | none => pickAttrs s id out keys

def attrsGet (s : SqliteStorage) (id : AccountId) (keys : List AttrKey) :
    Result AttrMap × SqliteStorage := (.ok (s.pickAttrs id ∅ keys), s)

def attrsAll (s : SqliteStorage) (id : AccountId) : Result AttrMap × SqliteStorage :=
  (.ok ((s.attrs.filter fun row => row.accountId = asI64 id).foldl
    (fun out row => out.insert (AttrKey.new row.key) row.value) ∅), s)

/-- The rows of an account that is not there are dropped without an error. -/
def attrsPut (s : SqliteStorage) (id : AccountId) (attrs : AttrMap) :
    Result Unit × SqliteStorage :=
  if attrs.isEmpty then (.ok (), s)
  else if s.hasAccount id then
    (.ok (),
      { s with attrs := upsertAttrs (asI64 id) s.attrs (Map.Walk.ascending.order attrs) })
  else (.ok (), s)

def banPut (s : SqliteStorage) (ban : Ban) : Result Unit × SqliteStorage :=
  if s.hasAccount ban.account then
    (.ok (), { s with bans := upsert BanRow.primaryKey (banRow ban) s.bans })
  else (.error foreignKeyFailed, s)

/-- `account_id = ?1 AND (expires_at IS NULL OR expires_at > ?2)`. -/
def banInForce (id : AccountId) (now : Nat) (row : BanRow) : Bool :=
  row.accountId = asI64 id && row.expiresAt.all fun expires => asI64 now < expires

/-- `CASE scope WHEN 'network' THEN 0 ELSE 1 END` is the order, and the first row is taken. -/
def banGet (s : SqliteStorage) (id : AccountId) (now : Nat) :
    Result (Option Ban) × SqliteStorage :=
  let rows := s.bans.filter (banInForce id now)
  let ranked := (rows.filter fun row => row.scope = "network".toList) ++
    rows.filter fun row => row.scope ≠ "network".toList
  (.ok (ranked.head?.map (rowToBan id)), s)

def banClear (s : SqliteStorage) (id : AccountId) (scope : BanScope) :
    Result Unit × SqliteStorage :=
  (.ok (),
    { s with
      bans := s.bans.filter fun row => decide (row.primaryKey ≠ (asI64 id, scopeStr scope)) })

def accountCount (s : SqliteStorage) : Result Nat × SqliteStorage := (.ok s.accounts.length, s)

/-- `ORDER BY id LIMIT ?1 OFFSET ?2`. -/
def listAccounts (s : SqliteStorage) (offset limit : Nat) :
    Result (List Account) × SqliteStorage :=
  (((s.accounts.drop (asI64 offset).toNat).take limit).mapM rowToAccount, s)

/-- The rows of the other tables go with the account's. -/
def deleteAccount (s : SqliteStorage) (id : AccountId) : Result Unit × SqliteStorage :=
  (.ok (),
    { s with
      accounts := s.accounts.filter fun row => row.id ≠ asI64 id
      attrs := s.attrs.filter fun row => row.accountId ≠ asI64 id
      bans := s.bans.filter fun row => row.accountId ≠ asI64 id
      characterRows := s.characterRows.filter fun row => row.accountId ≠ asI64 id })

def characters (s : SqliteStorage) (account : AccountId) :
    Result (List Character) × SqliteStorage :=
  (.ok ((s.characterRows.filter fun row => row.accountId = asI64 account).map rowToCharacter), s)

def characterByName (s : SqliteStorage) (name : Text) :
    Result (Option Character) × SqliteStorage :=
  let row := selectKey CharacterRow.nameLower name.toAsciiLowercase s.characterRows
  (.ok (row.map rowToCharacter), s)

/-- A name that is taken is ignored before the account is looked for. -/
def createCharacter (s : SqliteStorage) (c : Character) : Result Unit × SqliteStorage :=
  match autoincrement s.characterSeq with
  | .error e => (.error e, s)
  | .ok id =>
    match insertOrIgnore CharacterRow.nameLower (characterRow c) s.characterRows with
    | none =>
      (.error .nameTaken, if s.ignoredUsesId then { s with characterSeq := id } else s)
    | some characterRows =>
      if s.hasAccount c.account then (.ok (), { s with characterRows, characterSeq := id })
      else (.error .noSuchAccount, s)

/-- `account_id = ?6 AND name_lower = ?7`. -/
def isCharacterRow (account : AccountId) (name : Text) (row : CharacterRow) : Bool :=
  row.accountId = asI64 account && row.nameLower = name.toAsciiLowercase

def updateCharacter (s : SqliteStorage) (c : Character) : Result Bool × SqliteStorage :=
  (.ok (s.characterRows.any (isCharacterRow c.account c.name)),
    { s with
      characterRows := s.characterRows.map fun row =>
        if isCharacterRow c.account c.name row then
          { row with
            status := c.status.toNat
            level := c.level.toNat
            progression := c.progression.toNat
            lastPlayed := asI64 c.lastPlayed
            save := c.save }
        else row })

def deleteCharacter (s : SqliteStorage) (account : AccountId) (name : Text) :
    Result Bool × SqliteStorage :=
  (.ok (s.characterRows.any (isCharacterRow account name)),
    { s with characterRows := s.characterRows.filter fun row => !isCharacterRow account name row })

def flush (s : SqliteStorage) (_ : Drain) : Result Unit × SqliteStorage := (.ok (), s)

instance : Storage SqliteStorage where
  accountByName := accountByName
  accountById := accountById
  createAccount := createAccount
  setCredential := setCredential
  attrsGet := attrsGet
  attrsAll := attrsAll
  attrsPut := attrsPut
  banPut := banPut
  banGet := banGet
  banClear := banClear
  accountCount := accountCount
  listAccounts := listAccounts
  deleteAccount := deleteAccount
  characters := characters
  characterByName := characterByName
  createCharacter := createCharacter
  updateCharacter := updateCharacter
  deleteCharacter := deleteCharacter
  flush := flush

end SqliteStorage

end CommandCenter.Storage
