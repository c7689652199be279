import CommandCenter.Core.Bridge

/-!
# Accounts, attributes, bans and characters

`crates/bnetcc-storage/src/attr.rs`, `model.rs` and the account-name rules of `lib.rs`. An
attribute key is canonical by construction. Times, ids and offsets are `u64` values that are
only compared.
-/

namespace CommandCenter.Storage

open Rust CommandCenter.Core

/-! ## Attribute keys -/

/-- A backslash for a slash, and lower case. -/
def normaliseChar (c : Char) : Char := (if c = '/' then '\\' else c).toLower

/-- Trimmed, with backslashes between the segments and in lower case. -/
def normalise (raw : Text) : Text := raw.trim.map normaliseChar

theorem isWhitespace_normaliseChar (c : Char) :
    Text.isWhitespace (normaliseChar c) = Text.isWhitespace c := by
  rw [normaliseChar, Text.isWhitespace_toLower]
  split
  · rename_i h
    rw [h]
    decide
  · rfl

theorem normaliseChar_ne_slash (c : Char) : normaliseChar c ≠ '/' := by
  unfold normaliseChar
  split
  · decide
  · rename_i hne
    intro h
    rcases Text.toLower_cases c with h' | ⟨_, _, h'⟩
    · exact hne (h'.symm.trans h)
    · rw [h] at h'
      change 47 = _ at h'
      omega

theorem normaliseChar_normaliseChar (c : Char) :
    normaliseChar (normaliseChar c) = normaliseChar c := by
  rw [normaliseChar, if_neg (normaliseChar_ne_slash c)]
  exact Text.toLower_toLower _

theorem normalise_normalise (raw : Text) : normalise (normalise raw) = normalise raw := by
  unfold normalise
  rw [Text.trim_map isWhitespace_normaliseChar, Text.trim_trim, List.map_map]
  exact List.map_congr_left fun c _ => normaliseChar_normaliseChar c

structure AttrKey where
  text : Text
  canonical : normalise text = text
  deriving DecidableEq

def AttrKey.new (raw : Text) : AttrKey := ⟨normalise raw, normalise_normalise raw⟩

abbrev AttrMap := Map AttrKey Text

/-! ## Domain types -/

inductive Credential where
  | xsha1 (digest : Vector UInt8 20)
  | srp (salt verifier : Vector UInt8 32)
  deriving DecidableEq

structure Account where
  id : AccountId
  name : Text
  credential : Credential
  createdAt : Nat
  deriving DecidableEq

structure NewAccount where
  name : Text
  credential : Credential
  createdAt : Nat
  attrs : AttrMap

inductive BanScope where
  | node
  | network
  deriving DecidableEq

structure Ban where
  account : AccountId
  scope : BanScope
  reason : Text
  appliedAt : Nat
  expiresAt : Option Nat
  deriving DecidableEq

/-- Whether this ban is in force at `now`. -/
def Ban.activeAt (ban : Ban) (now : Nat) : Bool :=
  match ban.expiresAt with
  | none => true
  | some expires => now < expires

/-- A Diablo II closed-realm character, owned by one account. -/
structure Character where
  account : AccountId
  name : Text
  /-- `class` in the source. -/
  heroClass : UInt8
  status : UInt8
  level : UInt8
  progression : UInt8
  createdAt : Nat
  lastPlayed : Nat
  save : Option (List UInt8)
  deriving DecidableEq

inductive StorageError where
  | nameTaken
  | noSuchAccount
  | invalidName (why : Text)
  | backend (message : Text)
  deriving DecidableEq

/-- `Display` for a storage failure. -/
def StorageError.display : StorageError → Text
  | .nameTaken => "account name already registered".toList
  | .noSuchAccount => "no such account".toList
  | .invalidName why => "invalid account name: ".toList ++ why
  | .backend message => "storage backend error: ".toList ++ message

abbrev Result (α : Type) := Except StorageError α

/-! ## Account names -/

def minName : Nat := 2

/-- Battle.net truncates beyond this. -/
def maxName : Nat := 15

/-- Split `Name@realm` at the last `@`. -/
def splitRealm (name : Text) : Text × Option Text :=
  match name.rsplitOnce '@' with
  | some (base, realm) => (base, some realm)
  | none => (name, none)

/-- The bytes up to the space, and delete. -/
def isSpaceOrControl (c : Char) : Bool := c.val ≤ 0x20 || c.val == 0x7F

def validateRealm (realm : Text) : Result Unit :=
  if realm.isEmpty ∨ maxName < realm.len then
    .error (.invalidName "realm must be 1 to 15 characters".toList)
  else if !realm.isAscii ∨ realm.any isSpaceOrControl then
    .error (.invalidName
      "realm contains whitespace, control or non-ASCII characters".toList)
  else .ok ()

/-- The checks of the part before the realm. -/
def validateBareName (name : Text) : Result Unit :=
  if name.len < minName then .error (.invalidName "shorter than 2 characters".toList)
  else if maxName < name.len then .error (.invalidName "longer than 15 characters".toList)
  else if !name.isAscii then .error (.invalidName "non-ASCII characters".toList)
  else if name.any isSpaceOrControl then
    .error (.invalidName "whitespace or control characters".toList)
  else if name.countP Char.isAlphanum = 0 then
    .error (.invalidName "must contain at least one letter or digit".toList)
  else if nameIsReservedForBridges name then
    .error (.invalidName "':' is reserved for bridged identities".toList)
  else .ok ()

def validateAccountName (name : Text) : Result Unit := do
  match splitRealm name with
  | (base, some realm) =>
    validateRealm realm
    validateBareName base
  | (base, none) => validateBareName base

end CommandCenter.Storage

/-!
## The storage trait

`crates/bnetcc-storage/src/lib.rs`: the trait that every backend and every layer over one
implements. A method takes `&mut self`, so each returns its result and the store after it. A
layer that drains a `HashMap` when it is flushed does so in an order that Rust leaves open;
`flush` takes that order.

`Call` lists the calls of the trait, and `Storage.answer` runs one of them.
-/

namespace CommandCenter

open Rust CommandCenter.Core Storage

/-- The order in which buffered attributes are walked. -/
abbrev Storage.Drain := Map.Walk AccountId AttrMap

/-- Persistence for accounts, attributes and bans. -/
class Storage (S : Type) where
  accountByName : S → Text → Result (Option Account) × S
  accountById : S → AccountId → Result (Option Account) × S
  createAccount : S → NewAccount → Result Account × S
  setCredential : S → AccountId → Credential → Result Unit × S
  attrsGet : S → AccountId → List AttrKey → Result AttrMap × S
  attrsAll : S → AccountId → Result AttrMap × S
  attrsPut : S → AccountId → AttrMap → Result Unit × S
  banPut : S → Ban → Result Unit × S
  banGet : S → AccountId → Nat → Result (Option Ban) × S
  banClear : S → AccountId → BanScope → Result Unit × S
  accountCount : S → Result Nat × S
  listAccounts : S → Nat → Nat → Result (List Account) × S
  deleteAccount : S → AccountId → Result Unit × S
  characters : S → AccountId → Result (List Character) × S
  characterByName : S → Text → Result (Option Character) × S
  createCharacter : S → Character → Result Unit × S
  updateCharacter : S → Character → Result Bool × S
  deleteCharacter : S → AccountId → Text → Result Bool × S
  flush : S → Drain → Result Unit × S

/-- A call of the trait. -/
inductive Storage.Call where
  | accountByName (name : Text)
  | accountById (id : AccountId)
  | createAccount (req : NewAccount)
  | setCredential (id : AccountId) (credential : Credential)
  | attrsGet (id : AccountId) (keys : List AttrKey)
  | attrsAll (id : AccountId)
  | attrsPut (id : AccountId) (attrs : AttrMap)
  | banPut (ban : Ban)
  | banGet (id : AccountId) (now : Nat)
  | banClear (id : AccountId) (scope : BanScope)
  | accountCount
  | listAccounts (offset limit : Nat)
  | deleteAccount (id : AccountId)
  | characters (account : AccountId)
  | characterByName (name : Text)
  | createCharacter (character : Character)
  | updateCharacter (character : Character)
  | deleteCharacter (account : AccountId) (name : Text)
  | flush (drain : Drain)

/-- Whether the call reads or changes attributes. -/
def Storage.Call.aboutAttrs : Call → Bool
  | .createAccount _ | .attrsGet _ _ | .attrsAll _ | .attrsPut _ _ | .deleteAccount _ => true
  | _ => false

inductive Storage.Reply where
  | account (result : Result (Option Account))
  | created (result : Result Account)
  | done (result : Result Unit)
  | attrs (result : Result AttrMap)
  | ban (result : Result (Option Ban))
  | count (result : Result Nat)
  | accounts (result : Result (List Account))
  | character (result : Result (Option Character))
  | characters (result : Result (List Character))
  | changed (result : Result Bool)

def Storage.answer {S : Type} [Storage S] (s : S) : Call → Reply × S
  | .accountByName name => (accountByName s name).map .account id
  | .accountById account => (accountById s account).map .account id
  | .createAccount req => (createAccount s req).map .created id
  | .setCredential account credential => (setCredential s account credential).map .done id
  | .attrsGet account keys => (attrsGet s account keys).map .attrs id
  | .attrsAll account => (attrsAll s account).map .attrs id
  | .attrsPut account attrs => (attrsPut s account attrs).map .done id
  | .banPut ban => (banPut s ban).map .done id
  | .banGet account now => (banGet s account now).map .ban id
  | .banClear account scope => (banClear s account scope).map .done id
  | .accountCount => (accountCount s).map .count id
  | .listAccounts offset limit => (listAccounts s offset limit).map .accounts id
  | .deleteAccount account => (deleteAccount s account).map .done id
  | .characters account => (characters s account).map .characters id
  | .characterByName name => (characterByName s name).map .character id
  | .createCharacter character => (createCharacter s character).map .done id
  | .updateCharacter character => (updateCharacter s character).map .changed id
  | .deleteCharacter account name => (deleteCharacter s account name).map .changed id
  | .flush drain => (flush s drain).map .done id

end CommandCenter
