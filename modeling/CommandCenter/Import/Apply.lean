import CommandCenter.Import.Plan
import CommandCenter.Library.ForEach
import CommandCenter.Storage.Sqlite

/-!
# Writing an import

`apply` of `crates/pvpgn-import/src/main.rs`. A run of the program has storage calls that may fail
and before each of which it may be stopped; what one of these calls has not changed then is as it
was. The clock is read for the arguments of a call.
-/

namespace CommandCenter.Import

open Rust CommandCenter.Core Storage Library

structure PlannedCharacter where
  account : Text
  name : Text
  /-- `class` in the source. -/
  heroClass : UInt8
  status : UInt8
  level : UInt8
  progression : UInt8
  lastPlayed : Nat
  save : List UInt8

/-- A storage call of `apply`, by the number of the account or character it is for. -/
inductive Point where
  | createAccount (i : Nat)
  | banPut (i : Nat)
  | accountByName (j : Nat)
  | createCharacter (j : Nat)
  | flush
  deriving DecidableEq

structure Attempt where
  /-- The call that fails, or before which the program is stopped. -/
  stop : Option Point
  /-- What `now` returns for the arguments of a call. -/
  clock : Point → Nat
  drain : Drain

/-- What `apply` has gathered: what it returns, and the ids of the accounts it has made. -/
structure Applied where
  made : Nat
  ids : Map Text AccountId
  chars : Nat
  notes : List Text

def Applied.note (out : Applied) (line : Text) : Applied :=
  { out with notes := out.notes ++ [line] }

def PlannedAccount.request (account : PlannedAccount) : NewAccount :=
  ⟨account.name, account.credential, account.createdAt, account.attrs⟩

def isXsha1 (account : Account) : Bool :=
  match account.credential with
  | .xsha1 _ => true
  | .srp _ _ => false

namespace Attempt

def call {α : Type} (attempt : Attempt) (point : Point)
    (f : SqliteStorage → Result α × SqliteStorage) (s : SqliteStorage) :
    Result α × SqliteStorage :=
  if attempt.stop = some point then (.error (.backend "interrupted".toList), s) else f s

/-- A lock becomes a ban of the account that was made. -/
def putBan (attempt : Attempt) (i : Nat) (account : PlannedAccount) (id : AccountId)
    (s : SqliteStorage) : Result Unit × SqliteStorage :=
  match account.ban with
  | none => (.ok (), s)
  | some (reason, expiresAt) =>
    attempt.call (.banPut i)
      (fun s => s.banPut ⟨id, .node, reason, attempt.clock (.banPut i), expiresAt⟩) s

/-- One turn of the loop over the accounts. -/
def applyAccount (attempt : Attempt) (i : Nat) (account : PlannedAccount) (out : Applied)
    (s : SqliteStorage) : Result Applied × SqliteStorage :=
  match attempt.call (.createAccount i) (fun s => s.createAccount account.request) s with
  | (.ok created, s) =>
    match attempt.putBan i account created.id s with
    | (.error e, s) => (.error e, s)
    | (.ok (), s) =>
      (.ok { out with
        made := out.made + 1
        ids := out.ids.insert created.name.toAsciiLowercase created.id }, s)
  | (.error .nameTaken, s) =>
    (.ok (out.note (account.name ++
      ": the name is already taken on this server; left as it is".toList)), s)
  | (.error e, s) => (.error e, s)

/-- `owner`: an account that this run made, or one that was there and is not of WarCraft III. -/
def owner (attempt : Attempt) (j : Nat) (ids : Map Text AccountId) (c : PlannedCharacter)
    (s : SqliteStorage) : Result (Option AccountId) × SqliteStorage :=
  match ids.lookup c.account.toAsciiLowercase with
  | some id => (.ok (some id), s)
  | none =>
    match attempt.call (.accountByName j) (fun s => s.accountByName c.account) s with
    | (.error e, s) => (.error e, s)
    | (.ok found, s) => (.ok ((found.filter isXsha1).map Account.id), s)

def character (attempt : Attempt) (j : Nat) (c : PlannedCharacter) (account : AccountId) :
    Character where
  account := account
  name := c.name
  heroClass := c.heroClass
  status := c.status
  level := c.level
  progression := c.progression
  createdAt := min c.lastPlayed (attempt.clock (.createCharacter j))
  lastPlayed := c.lastPlayed
  save := some c.save

/-- One turn of the loop over the characters. -/
def applyCharacter (attempt : Attempt) (j : Nat) (c : PlannedCharacter) (out : Applied)
    (s : SqliteStorage) : Result Applied × SqliteStorage :=
  match attempt.owner j out.ids c s with
  | (.error e, s) => (.error e, s)
  | (.ok none, s) =>
    (.ok (out.note (c.name ++ ": its account ".toList ++ c.account ++
      " is not on this server".toList)), s)
  | (.ok (some account), s) =>
    match attempt.call (.createCharacter j)
        (fun s => s.createCharacter (attempt.character j c account)) s with
    | (.ok (), s) => (.ok { out with chars := out.chars + 1 }, s)
    | (.error .nameTaken, s) =>
      (.ok (out.note (c.name ++ ": a character by that name already exists on this server".toList)),
        s)
    | (.error e, s) => (.error e, s)

/-- Write the plan: accounts made, characters made, notes. -/
def apply (attempt : Attempt) (s : SqliteStorage) (plan : Plan)
    (characters : List PlannedCharacter) : Result (Nat × Nat × List Text) × SqliteStorage :=
  match forEach attempt.applyAccount 0 plan.accounts ⟨0, ∅, 0, []⟩ s with
  | (.error e, s) => (.error e, s)
  | (.ok out, s) =>
    match forEach attempt.applyCharacter 0 characters out s with
    | (.error e, s) => (.error e, s)
    | (.ok out, s) =>
      match attempt.call .flush (fun s => s.flush attempt.drain) s with
      | (.error e, s) => (.error e, s)
      | (.ok (), s) => (.ok (out.made, out.chars, out.notes), s)

end Attempt

end CommandCenter.Import
