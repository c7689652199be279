import CommandCenter.Storage.Model

/-!
# The in-memory reference backend

`crates/bnetcc-storage/src/memory.rs`. `next_id` is a `u64` and wraps where Rust's would in a
release build.

* `MemoryStorage.createAccount_cases`: an account is refused or enrolled, whatever the attributes.
* `MemoryStorage.answer_withAttrs`: a call that is not about attributes answers the same
  whatever the attributes are, and keeps them.
-/

namespace CommandCenter.Storage

open Rust CommandCenter.Core

/-- An in-memory `Storage` implementation. -/
structure MemoryStorage where
  accounts : Map AccountId Account
  /-- Lowercased name to id. -/
  byName : Map Text AccountId
  attrs : Map AccountId AttrMap
  bans : Map (AccountId × BanScope) Ban
  /-- `characters` in the source: in creation order, names are unique realm-wide. -/
  characterList : List Character
  nextId : UInt64

namespace MemoryStorage

def new : MemoryStorage := ⟨∅, ∅, ∅, ∅, [], 0⟩

def accountByName (s : MemoryStorage) (name : Text) : Result (Option Account) × MemoryStorage :=
  (.ok ((s.byName.lookup name.toAsciiLowercase).bind fun id => s.accounts.lookup id), s)

def accountById (s : MemoryStorage) (id : AccountId) : Result (Option Account) × MemoryStorage :=
  (.ok (s.accounts.lookup id), s)

/-- The store once an account is entered under the next id. -/
def enroll (s : MemoryStorage) (req : NewAccount) : Account × MemoryStorage :=
  let nextId := s.nextId + 1
  let account : Account := ⟨nextId.toNat, req.name, req.credential, req.createdAt⟩
  (account,
    { s with
      nextId
      byName := s.byName.insert req.name.toAsciiLowercase account.id
      accounts := s.accounts.insert account.id account
      attrs := if req.attrs.isEmpty then s.attrs else s.attrs.insert account.id req.attrs })

def createAccount (s : MemoryStorage) (req : NewAccount) : Result Account × MemoryStorage :=
  match validateAccountName req.name with
  | .error e => (.error e, s)
  | .ok () =>
    if req.name.toAsciiLowercase ∈ s.byName then (.error .nameTaken, s)
    else (s.enroll req).map .ok id

def setCredential (s : MemoryStorage) (id : AccountId) (credential : Credential) :
    Result Unit × MemoryStorage :=
  match s.accounts.lookup id with
  | none => (.error .noSuchAccount, s)
  | some account =>
    (.ok (), { s with accounts := s.accounts.insert id { account with credential } })

def attrsGet (s : MemoryStorage) (id : AccountId) (keys : List AttrKey) :
    Result AttrMap × MemoryStorage :=
  match s.attrs.lookup id with
  | none => (.ok ∅, s)
  | some all => (.ok (Map.pick all ∅ keys), s)

def attrsAll (s : MemoryStorage) (id : AccountId) : Result AttrMap × MemoryStorage :=
  (.ok ((s.attrs.lookup id).getD ∅), s)

def attrsPut (s : MemoryStorage) (id : AccountId) (attrs : AttrMap) :
    Result Unit × MemoryStorage :=
  if attrs.isEmpty then (.ok (), s)
  else (.ok (), { s with attrs := s.attrs.extendAt id attrs })

def banPut (s : MemoryStorage) (ban : Ban) : Result Unit × MemoryStorage :=
  (.ok (), { s with bans := s.bans.insert (ban.account, ban.scope) ban })

/-- The ban on the account in this scope, if it is in force. -/
def activeBan (s : MemoryStorage) (id : AccountId) (now : Nat) (scope : BanScope) : Option Ban :=
  (s.bans.lookup (id, scope)).filter fun ban => ban.activeAt now

/-- Network scope outranks node scope when both are present. -/
def banGet (s : MemoryStorage) (id : AccountId) (now : Nat) :
    Result (Option Ban) × MemoryStorage :=
  (.ok ([BanScope.network, BanScope.node].findSome? (s.activeBan id now)), s)

def banClear (s : MemoryStorage) (id : AccountId) (scope : BanScope) :
    Result Unit × MemoryStorage :=
  (.ok (), { s with bans := s.bans.erase (id, scope) })

def accountCount (s : MemoryStorage) : Result Nat × MemoryStorage := (.ok s.accounts.len, s)

/-- A page of accounts ordered by id. -/
def listAccounts (s : MemoryStorage) (offset limit : Nat) :
    Result (List Account) × MemoryStorage :=
  let ids := s.accounts.keys.sort
  (.ok (((ids.drop offset).take limit).filterMap fun id => s.accounts.lookup id), s)

def deleteAccount (s : MemoryStorage) (id : AccountId) : Result Unit × MemoryStorage :=
  let byName :=
    match s.accounts.lookup id with
    | some account => s.byName.erase account.name.toAsciiLowercase
    | none => s.byName
  (.ok (),
    { s with
      accounts := s.accounts.erase id
      byName
      attrs := s.attrs.erase id
      bans := s.bans.retain fun key _ => key.1 != id
      characterList := s.characterList.filter fun c => c.account != id })

def characters (s : MemoryStorage) (account : AccountId) :
    Result (List Character) × MemoryStorage :=
  (.ok (s.characterList.filter fun c => c.account == account), s)

def characterByName (s : MemoryStorage) (name : Text) :
    Result (Option Character) × MemoryStorage :=
  (.ok (s.characterList.find? fun c => c.name.eqIgnoreAsciiCase name), s)

def createCharacter (s : MemoryStorage) (character : Character) :
    Result Unit × MemoryStorage :=
  if character.account ∉ s.accounts then (.error .noSuchAccount, s)
  else if s.characterList.any fun c => c.name.eqIgnoreAsciiCase character.name then
    (.error .nameTaken, s)
  else (.ok (), { s with characterList := s.characterList ++ [character] })

/-- Whether `c` is the account's character of that name. -/
def isCharacter (account : AccountId) (name : Text) (c : Character) : Bool :=
  c.account == account && c.name.eqIgnoreAsciiCase name

/-- The mutable fields of a stored character are replaced. -/
def overwrite (slot character : Character) : Character :=
  { slot with
    status := character.status
    level := character.level
    progression := character.progression
    lastPlayed := character.lastPlayed
    save := character.save }

def updateCharacter (s : MemoryStorage) (character : Character) :
    Result Bool × MemoryStorage :=
  match s.characterList.findIdx? (isCharacter character.account character.name) with
  | none => (.ok false, s)
  | some i =>
    (.ok true,
      { s with characterList := s.characterList.modify i fun slot => overwrite slot character })

def deleteCharacter (s : MemoryStorage) (account : AccountId) (name : Text) :
    Result Bool × MemoryStorage :=
  let kept := s.characterList.filter fun c => !isCharacter account name c
  (.ok (kept.length != s.characterList.length), { s with characterList := kept })

def flush (s : MemoryStorage) (_ : Drain) : Result Unit × MemoryStorage := (.ok (), s)

instance : Storage MemoryStorage where
  accountByName := accountByName
  accountById := accountById
  createAccount := createAccount
  setCredential := setCredential
  attrsGet := attrsGet
  attrsAll := attrsAll
  attrsPut := attrsPut
  banPut := banPut
  banGet := banGet
  banClear := banClear
  accountCount := accountCount
  listAccounts := listAccounts
  deleteAccount := deleteAccount
  characters := characters
  characterByName := characterByName
  createCharacter := createCharacter
  updateCharacter := updateCharacter
  deleteCharacter := deleteCharacter
  flush := flush

theorem updateCharacter_accounts (s : MemoryStorage) (character : Character) :
    (s.updateCharacter character).2.accounts = s.accounts := by
  unfold MemoryStorage.updateCharacter
  split <;> rfl

/-- A read picks the keys from what the account has. -/
theorem attrsGet_eq (m : MemoryStorage) (id : AccountId) (keys : List AttrKey) :
    m.attrsGet id keys = (.ok (Map.pick ((m.attrs.lookup id).getD ∅) ∅ keys), m) := by
  unfold MemoryStorage.attrsGet
  cases m.attrs.lookup id with
  | none => exact congrArg (fun out => (Except.ok out, m)) (Map.pick_empty ∅ keys).symm
  | some all => rfl

/-! ## Attributes apart -/

def withAttrs (s : MemoryStorage) (attrs : Map AccountId AttrMap) : MemoryStorage :=
  { s with attrs }

/-- A call that is not about attributes answers the same whatever they are, and keeps them. -/
theorem answer_withAttrs (s : MemoryStorage) (attrs : Map AccountId AttrMap) {c : Call}
    (hc : c.aboutAttrs = false) :
    answer (s.withAttrs attrs) c = ((answer s c).1, (answer s c).2.withAttrs attrs) ∧
      (answer s c).2.attrs = s.attrs := by
  cases c with
  | createAccount | attrsGet | attrsAll | attrsPut | deleteAccount => cases hc
  | setCredential account credential =>
    simp only [answer, Storage.setCredential, setCredential, withAttrs]
    split <;> exact ⟨rfl, rfl⟩
  | createCharacter character =>
    by_cases howner : character.account ∈ s.accounts
    · by_cases htaken :
          (s.characterList.any fun c => c.name.eqIgnoreAsciiCase character.name) = true
      · simp [answer, Storage.createCharacter, createCharacter, withAttrs, howner, htaken]
      · simp [answer, Storage.createCharacter, createCharacter, withAttrs, howner, htaken]
    · simp [answer, Storage.createCharacter, createCharacter, withAttrs, howner]
  | updateCharacter character =>
    simp only [answer, Storage.updateCharacter, updateCharacter, withAttrs]
    split <;> exact ⟨rfl, rfl⟩
  | _ => exact ⟨rfl, rfl⟩

theorem enroll_withAttrs (s : MemoryStorage) (attrs : Map AccountId AttrMap) (req : NewAccount) :
    (s.withAttrs attrs).enroll req =
      ((s.enroll req).1, (s.enroll req).2.withAttrs
        (if req.attrs.isEmpty then attrs else attrs.insert (s.enroll req).1.id req.attrs)) := rfl

theorem createAccount_cases (s : MemoryStorage) (req : NewAccount) :
    (∃ e, ∀ attrs, (s.withAttrs attrs).createAccount req = (.error e, s.withAttrs attrs)) ∨
      ∀ attrs, (s.withAttrs attrs).createAccount req =
        ((s.withAttrs attrs).enroll req).map .ok id := by
  cases hname : validateAccountName req.name with
  | error e => exact Or.inl ⟨e, fun attrs => by simp [createAccount, hname]⟩
  | ok =>
    by_cases htaken : req.name.toAsciiLowercase ∈ s.byName
    · refine Or.inl ⟨.nameTaken, fun attrs => ?_⟩
      simp [createAccount, hname, withAttrs, htaken]
    · refine Or.inr fun attrs => ?_
      simp [createAccount, hname, withAttrs, htaken]

end MemoryStorage

end CommandCenter.Storage
