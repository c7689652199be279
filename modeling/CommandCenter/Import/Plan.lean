import CommandCenter.Rust.Fields
import CommandCenter.Storage.Model

/-!
# Planning an import

`crates/pvpgn-import/src/plan.rs` and `PvpgnAccount` of `source.rs`. A PvPGN account keeps its
attributes in a `BTreeMap`, which is walked in ascending order of the keys: here it is the list of
its entries in that order.

The body of the loop over the accounts is cut into what it does for the X-SHA-1 account, for the
SRP account and for neither.
-/

namespace CommandCenter.Import

open Rust Storage

/-! ## PvPGN accounts -/

/-- One PvPGN account: its attributes by key, as PvPGN spells them. -/
structure PvpgnAccount where
  origin : Text
  attrs : List (Text × Text)
  ascending : attrs.Pairwise fun a b => a.1 < b.1

/-- An attribute by key, any case. -/
def PvpgnAccount.get (account : PvpgnAccount) (key : String) : Option Text :=
  (account.attrs.find? fun a => a.1.eqIgnoreAsciiCase key.toList).map Prod.snd

/-! ## Options and plans -/

/-- How PvPGN's 40 hex digits of `passhash1` become the digest's 20 bytes. -/
inductive HashOrder where
  | words
  | bytes
  deriving DecidableEq

/-- How PvPGN's hex salt and verifier become the 32 bytes each the WarCraft III logon uses. -/
inductive SrpOrder where
  | asIs
  | reversed
  deriving DecidableEq

/-- What the plan needs to know about the target server. -/
structure Options where
  realm : Text
  hashOrder : HashOrder
  /-- `none` leaves WarCraft III accounts out. -/
  srpOrder : Option SrpOrder
  now : Nat

structure PlannedAccount where
  name : Text
  credential : Credential
  createdAt : Nat
  attrs : AttrMap
  /-- Reason, and when it ends. -/
  ban : Option (Text × Option Nat)
  origin : Text

/-- The whole import, before anything is written. -/
structure Plan where
  accounts : List PlannedAccount
  /-- Accounts left out, with why. -/
  skipped : List Text
  admins : List Text
  operators : List Text
  emailsLeft : Nat
  friendsLeft : Nat
  mutesLeft : Nat
  /-- How many WarCraft III credentials were left out for want of an order. -/
  srpLeft : Nat

/-- `Plan::default`. -/
def Plan.empty : Plan := ⟨[], [], [], [], 0, 0, 0, 0⟩

/-! ## Hex fields -/

/-- `u8::from_str_radix` at radix 16, of two characters: the first may be a plus sign. -/
def byteFromHex (high low : Char) : Option UInt8 :=
  if high = '+' then (hexDigit low).map UInt8.ofNat
  else (hexDigit high).bind fun h => (hexDigit low).map fun l => .ofNat (16 * h + l)

/-- The slices of two bytes each. One that holds a byte of a character outside ASCII is no number,
whether the slice ends within the character or not. -/
def hexPairs : Text → Option (List UInt8)
  | [] => some []
  | [_] => none
  | high :: low :: rest =>
    (byteFromHex high low).bind fun byte => (hexPairs rest).map fun bytes => byte :: bytes

def hex (s : Text) : Option (List UInt8) :=
  if s.trim.len % 2 ≠ 0 then none else hexPairs s.trim

/-- Big-endian words written little-endian. -/
def swapWords : List UInt8 → List UInt8
  | a :: b :: c :: d :: rest => d :: c :: b :: a :: swapWords rest
  | rest => rest

def orderBytes : HashOrder → List UInt8 → List UInt8
  | .bytes, bytes => bytes
  | .words, bytes => swapWords bytes

/-- A conversion of a slice to an array. -/
def toVector (n : Nat) (bytes : List UInt8) : Option (Vector UInt8 n) :=
  if h : bytes.length = n then some ⟨bytes.toArray, h⟩ else none

/-- `passhash1` as a digest. -/
def digest (passhash : Text) (order : HashOrder) : Option (Vector UInt8 20) :=
  (hex passhash).bind fun bytes => toVector 20 (orderBytes order bytes)

/-- A hex salt or verifier as the logon's 32 bytes. -/
def srpField (value : Text) (order : SrpOrder) : Option (Vector UInt8 32) :=
  (hex value).bind fun bytes =>
    if 32 < bytes.length then none
    else
      let bytes := if order = .reversed then bytes.reverse else bytes
      toVector 32 (bytes ++ List.replicate (32 - bytes.length) 0)

/-! ## Fields -/

def isTrue (v : Option Text) : Bool :=
  v.any fun v => v.trim.eqIgnoreAsciiCase "true".toList || v.trim == "1".toList

def number (v : Option Text) : Option Nat :=
  (v.bind fun v => (parseU64 v.trim).map UInt64.toNat).filter (0 < ·)

def isGiven (v : Text) : Bool := !v.trim.isEmpty

/-- Whether a record key belongs to WarCraft III. -/
def warcraftRecord (key : Text) : Bool :=
  let product : Text := (key.splitOn '\\')[1]?.getD []
  product.eqIgnoreAsciiCase "WAR3".toList || product.eqIgnoreAsciiCase "W3XP".toList

def isProfile (key : Text) : Bool := "profile\\".toList.isPrefixOf key.toAsciiLowercase

def isRecord (key : Text) : Bool := "record\\".toList.isPrefixOf key.toAsciiLowercase

/-- One attribute is put with everyone's or with WarCraft III's, or is left out. -/
def sortAttr (sorted : AttrMap × AttrMap) (a : Text × Text) : AttrMap × AttrMap :=
  if isProfile a.1 ∧ a.2 ≠ [] then (sorted.1.insert (AttrKey.new a.1) a.2, sorted.2)
  else if isRecord a.1 ∧ a.2 ≠ [] then
    if warcraftRecord a.1 then (sorted.1, sorted.2.insert (AttrKey.new a.1) a.2)
    else (sorted.1.insert (AttrKey.new a.1) a.2, sorted.2)
  else sorted

def lastLogin : AttrKey := AttrKey.new "System\\LastLogin".toList

namespace PvpgnAccount

def name (account : PvpgnAccount) : Option Text :=
  (account.get "BNET\\acct\\username").map Text.trim

def passhash (account : PvpgnAccount) : Option Text :=
  (account.get "BNET\\acct\\passhash1").filter isGiven

def salt (account : PvpgnAccount) : Option Text := account.get "BNET\\acct\\salt"

def verifier (account : PvpgnAccount) : Option Text := account.get "BNET\\acct\\verifier"

/-- `common`: the attributes that go with any logon. -/
def common (account : PvpgnAccount) : AttrMap :=
  let common := (account.attrs.foldl sortAttr (∅, ∅)).1
  match number (account.get "BNET\\acct\\lastlogin_time") with
  | some last => common.insert lastLogin (Nat.toDigits 10 last)
  | none => common

/-- `warcraft`: the records of WarCraft III. -/
def warcraft (account : PvpgnAccount) : AttrMap := (account.attrs.foldl sortAttr (∅, ∅)).2

def createdAt (account : PvpgnAccount) (opts : Options) : Nat :=
  (number (account.get "BNET\\acct\\ctime")).getD opts.now

def ban (account : PvpgnAccount) (opts : Options) : Option (Text × Option Nat) :=
  if isTrue (account.get "BNET\\auth\\lock") then
    some (((account.get "BNET\\auth\\lockreason").filter isGiven).getD
        "Locked on the PvPGN server".toList,
      (number (account.get "BNET\\auth\\lockuntil")).filter (opts.now < ·))
  else none

end PvpgnAccount

/-! ## The loop -/

/-- A line of the report: the account, where it came from, and why it is left out. -/
def skippedLine (account : PvpgnAccount) (name why : Text) : Text :=
  name ++ " (".toList ++ account.origin ++ "): ".toList ++ why

def Plan.skip (out : Plan) (line : Text) : Plan := { out with skipped := out.skipped ++ [line] }

def Plan.push (out : Plan) (planned : PlannedAccount) : Plan :=
  { out with accounts := out.accounts ++ [planned] }

/-- The rights that are reported and the counts of what is left behind. -/
def tallyOthers (account : PvpgnAccount) (name : Text) (out : Plan) : Plan :=
  { out with
    admins := if isTrue (account.get "BNET\\auth\\admin") then out.admins ++ [name] else out.admins
    operators :=
      if isTrue (account.get "BNET\\auth\\operator") then out.operators ++ [name] else out.operators
    emailsLeft := out.emailsLeft + ((account.get "BNET\\acct\\email").any isGiven).toNat
    friendsLeft := out.friendsLeft + (number (account.get "friend\\count")).isSome.toNat
    mutesLeft := out.mutesLeft + (isTrue (account.get "BNET\\auth\\mute")).toNat }

/-- The X-SHA-1 account, and whether it was made. -/
def planXsha1 (opts : Options) (account : PvpgnAccount) (name : Text) (out : Plan) : Plan × Bool :=
  match account.passhash with
  | none => (out, false)
  | some passhash =>
    match digest passhash opts.hashOrder with
    | some digest =>
      let attrs :=
        if account.salt.isNone then account.common.extend account.warcraft else account.common
      (out.push ⟨name, .xsha1 digest, account.createdAt opts, attrs, account.ban opts,
        account.origin⟩, true)
    | none =>
      (out.skip (skippedLine account name "its password hash is not 40 hex digits".toList), false)

/-- The SRP account, and whether any account was made. -/
def planSrp (opts : Options) (account : PvpgnAccount) (name : Text) (out : Plan) (made : Bool) :
    Plan × Bool :=
  match account.salt, account.verifier with
  | some salt, some verifier =>
    match opts.srpOrder with
    | none => ({ out with srpLeft := out.srpLeft + 1 }, made)
    | some order =>
      match srpField salt order, srpField verifier order with
      | some salt, some verifier =>
        let attrs := if made then account.warcraft else account.warcraft.extend account.common
        (out.push ⟨name ++ '@' :: opts.realm, .srp salt verifier, account.createdAt opts, attrs,
          account.ban opts, account.origin⟩, true)
      | _, _ =>
        (out.skip (skippedLine account name "its WarCraft III salt or verifier is not hex".toList),
          made)
  | _, _ => (out, made)

/-- An account without any password is reported. -/
def planNone (account : PvpgnAccount) (name : Text) (out : Plan) (made : Bool) : Plan :=
  if !made ∧ account.passhash = none ∧ account.salt = none then
    out.skip (skippedLine account name "no password".toList)
  else out

/-- The body of the loop, for an account whose name is taken. -/
def planPlayer (opts : Options) (account : PvpgnAccount) (name : Text) (out : Plan) : Plan :=
  let xsha1 := planXsha1 opts account name (tallyOthers account name out)
  let srp := planSrp opts account name xsha1.1 xsha1.2
  planNone account name srp.1 srp.2

/-- The body of the loop: the plan so far and the names in it. -/
def planAccount (opts : Options) (state : Plan × Finset Text) (account : PvpgnAccount) :
    Plan × Finset Text :=
  match account.name with
  | none => state
  | some name =>
    match validateAccountName name with
    | .error e =>
      (state.1.skip (skippedLine account name
        ("not a valid Command Center name: ".toList ++ e.display)), state.2)
    | .ok () =>
      if name.toAsciiLowercase ∈ state.2 then
        (state.1.skip (skippedLine account name "the same name as an account before it".toList),
          state.2)
      else (planPlayer opts account name state.1, insert name.toAsciiLowercase state.2)

def planLoop (accounts : List PvpgnAccount) (opts : Options) : Plan × Finset Text :=
  accounts.foldl (planAccount opts) (.empty, ∅)

/-- Plan the import of `accounts`. -/
def plan (accounts : List PvpgnAccount) (opts : Options) : Plan := (planLoop accounts opts).1

end CommandCenter.Import
