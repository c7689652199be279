import Mathlib.Data.Finset.Basic
import CommandCenter.Rust.Text

/-!
# Channels and the operator rules

`crates/bnetcc-core/src/channel.rs`. A method that takes `&mut self` is a function from the
channel to its result and the channel after the call. Flags are the `u32` bit sets of the
wire, the sequence number is the `u64` counter, which wraps where Rust's would in a release
build. An account id is a `u64` in the source; ids are only compared here.

`Op` lists the operations of a channel and `Channel.exec` runs one of them; `Channel.step`
keeps the state alone.
-/

namespace CommandCenter.Core

open Rust

abbrev AccountId := Nat

inductive ChannelClass where
  | «local»
  | federated
  | official
  deriving DecidableEq

/-- Whether the first user to enter is granted operator. -/
def ChannelClass.grantsFirstOperator : ChannelClass → Bool
  | «local» | federated => true
  | official => false

/-- Whether the channel survives becoming empty. -/
def ChannelClass.persistsWhenEmpty : ChannelClass → Bool
  | official => true
  | «local» | federated => false

namespace UserFlags

def operator : UInt32 := 0x02

end UserFlags

namespace ChannelFlags

def «public» : UInt32 := 0x0001
def system : UInt32 := 0x0010

end ChannelFlags

structure Member where
  account : AccountId
  name : Text
  flags : UInt32
  statstring : List UInt8
  deriving DecidableEq

/-- The member with the operator flag set. -/
def Member.flagged (m : Member) : Member := { m with flags := m.flags ||| UserFlags.operator }

inductive JoinDenial where
  | full
  | banned
  | restricted
  | alreadyPresent
  deriving DecidableEq

structure JoinOutcome where
  grantedOperator : Bool
  flags : UInt32
  deriving DecidableEq

structure LeaveOutcome where
  newOperator : Option AccountId := none
  nowEmpty : Bool := false
  shouldDestroy : Bool := false
  deriving DecidableEq

/-- Why an operator action was refused. -/
inductive OpError where
  | notOperator
  | notPresent
  | cannotTargetSelf
  deriving DecidableEq

/-- How a channel grants operator on join. -/
inductive OpGrant where
  | none
  | firstArrival
  | nameMatch (name : Text)
  deriving DecidableEq

structure Channel where
  name : List UInt8
  display : Text
  channelClass : ChannelClass
  flags : UInt32
  maxUsers : Nat
  members : List Member
  operator : Option AccountId
  heirs : List AccountId
  bans : Finset AccountId
  seq : UInt64
  opGrant : OpGrant
  persist : Bool
  deriving DecidableEq

namespace Channel

def new (name : List UInt8) (display : Text) (channelClass : ChannelClass) (maxUsers : Nat) :
    Channel where
  name := name
  display := display
  channelClass := channelClass
  flags :=
    match channelClass with
    | .official => ChannelFlags.public ||| ChannelFlags.system
    | _ => ChannelFlags.public
  maxUsers := maxUsers
  members := []
  operator := none
  heirs := []
  bans := ∅
  seq := 0
  opGrant := if channelClass.grantsFirstOperator then .firstArrival else .none
  persist := false

def setOpGrant (c : Channel) (opGrant : OpGrant) : Channel := { c with opGrant }

def setPersist (c : Channel) (persist : Bool) : Channel := { c with persist }

def isOperator (c : Channel) (account : AccountId) : Bool := c.operator == some account

def bump (c : Channel) : Channel := { c with seq := c.seq + 1 }

def positionByAccount (c : Channel) (account : AccountId) : Option (Fin c.members.length) :=
  c.members.findFinIdx? fun m => m.account == account

/-- The account of the session at a position. -/
def accountAt (c : Channel) (idx : Fin c.members.length) : AccountId := c.members[idx].account

def positionByName (c : Channel) (name : Text) : Option (Fin c.members.length) :=
  c.members.findFinIdx? fun m => m.name.eqIgnoreAsciiCase name

/-- The base name with any `#N` disambiguation suffix stripped. -/
def baseName (name : Text) : Text :=
  match name.rsplitOnce '#' with
  | some (base, suffix) => if !suffix.isEmpty && suffix.all Char.isDigit then base else name
  | none => name

/-! ## Joining -/

/-- The checks that `join` makes before it changes anything. -/
def joinDenial (c : Channel) (account : AccountId) (name : Text) : Option JoinDenial :=
  if account ∈ c.bans then some .banned
  else if (c.positionByName name).isSome then some .alreadyPresent
  else if c.maxUsers ≠ 0 ∧ c.maxUsers ≤ c.members.length then some .full
  else none

/-- Whether `join` grants operator to a user who enters under `name`. -/
def grantsOperator (c : Channel) (name : Text) : Bool :=
  c.operator.isNone &&
    match c.opGrant with
    | .none => false
    | .firstArrival => c.members.isEmpty
    | .nameMatch opName => (baseName name).eqIgnoreAsciiCase opName

/-- The flags `join` gives a user who enters under `name`. -/
def joinFlags (c : Channel) (name : Text) (baseFlags : UInt32) : UInt32 :=
  if c.grantsOperator name then baseFlags ||| UserFlags.operator
  else baseFlags &&& ~~~UserFlags.operator

/-- The channel once a user has passed the checks of `join`. -/
def enter (c : Channel) (account : AccountId) (name : Text) (baseFlags : UInt32)
    (statstring : List UInt8) : Channel :=
  bump { c with
    operator := if c.grantsOperator name then some account else c.operator
    members := c.members ++ [⟨account, name, c.joinFlags name baseFlags, statstring⟩] }

def join (c : Channel) (account : AccountId) (name : Text) (baseFlags : UInt32)
    (statstring : List UInt8) : Except JoinDenial JoinOutcome × Channel :=
  match c.joinDenial account name with
  | some denial => (.error denial, c)
  | none =>
    (.ok { grantedOperator := c.grantsOperator name, flags := c.joinFlags name baseFlags },
      c.enter account name baseFlags statstring)

/-! ## Leaving -/

/-- The heir takes the role: the flag is set on the first of its sessions, and it leaves
the line of heirs. -/
def promote (c : Channel) (h : AccountId) : Channel :=
  { c with
    operator := some h
    members :=
      match c.positionByAccount h with
      | some pos => c.members.modify pos Member.flagged
      | none => c.members
    heirs := c.heirs.filter (· ≠ h) }

/-- The channel without the session at `idx`. -/
def without (c : Channel) (idx : Fin c.members.length) : Channel :=
  bump { c with members := c.members.eraseIdx idx }

/-- The channel with an account struck from the line of heirs. -/
def disinherit (c : Channel) (account : AccountId) : Channel :=
  { c with heirs := c.heirs.filter (· ≠ account) }

/-- What a departure reports of the channel it leaves behind. -/
def departure (c : Channel) : LeaveOutcome where
  nowEmpty := c.members.isEmpty
  shouldDestroy := c.members.isEmpty && !c.channelClass.persistsWhenEmpty && !c.persist

/-- The role is vacant: it passes to the first designated heir still present. -/
def handOver (c : Channel) (out : LeaveOutcome) : LeaveOutcome × Channel :=
  match c.heirs.find? fun h => (c.positionByAccount h).isSome with
  | some h => ({ out with newOperator := some h }, c.promote h)
  | none => (out, c)

/-- Remove the member at `idx` and handle operator succession. -/
def removeAt (c : Channel) (idx : Fin c.members.length) : LeaveOutcome × Channel :=
  let account := c.accountAt idx
  let c := c.without idx
  let accountGone := (c.positionByAccount account).isNone
  let c := if accountGone then c.disinherit account else c
  let out := c.departure
  if accountGone && c.operator == some account then
    { c with operator := none }.handOver out
  else (out, c)

def leave (c : Channel) (name : Text) : LeaveOutcome × Channel :=
  match c.positionByName name with
  | some idx => c.removeAt idx
  | none => ({}, c)

/-- Remove the first session of an account. -/
def leaveAccount (c : Channel) (account : AccountId) : LeaveOutcome × Channel :=
  match c.positionByAccount account with
  | some idx => c.removeAt idx
  | none => ({}, c)

/-! ## Operator actions -/

/-- A result of a call that cannot fail, as the result of one that can. -/
def succeed {ε α : Type} (r : α × Channel) : Except ε α × Channel := (.ok r.1, r.2)

def designate (c : Channel) (actor heir : AccountId) : Except OpError Unit × Channel :=
  if !c.isOperator actor then (.error .notOperator, c)
  else if actor = heir then (.error .cannotTargetSelf, c)
  else if (c.positionByAccount heir).isNone then (.error .notPresent, c)
  else (.ok (), bump { c with heirs := c.heirs.filter (· ≠ heir) ++ [heir] })

def kick (c : Channel) (actor target : AccountId) : Except OpError LeaveOutcome × Channel :=
  if !c.isOperator actor then (.error .notOperator, c)
  else if actor = target then (.error .cannotTargetSelf, c)
  else if (c.positionByAccount target).isNone then (.error .notPresent, c)
  else succeed (c.leaveAccount target)

def ban (c : Channel) (actor target : AccountId) : Except OpError LeaveOutcome × Channel :=
  if !c.isOperator actor then (.error .notOperator, c)
  else if actor = target then (.error .cannotTargetSelf, c)
  else succeed ({ c with bans := insert target c.bans }.leaveAccount target)

def unban (c : Channel) (actor target : AccountId) : Except OpError Bool × Channel :=
  if !c.isOperator actor then (.error .notOperator, c)
  else (.ok (decide (target ∈ c.bans)), { c with bans := c.bans.erase target })

def kickByName (c : Channel) (actor : AccountId) (targetName : Text) :
    Except OpError LeaveOutcome × Channel :=
  if !c.isOperator actor then (.error .notOperator, c)
  else
    match c.positionByName targetName with
    | none => (.error .notPresent, c)
    | some idx =>
      if c.accountAt idx = actor then (.error .cannotTargetSelf, c)
      else succeed (c.removeAt idx)

def banByName (c : Channel) (actor : AccountId) (targetName : Text) :
    Except OpError (AccountId × LeaveOutcome) × Channel :=
  if !c.isOperator actor then (.error .notOperator, c)
  else
    match c.positionByName targetName with
    | none => (.error .notPresent, c)
    | some idx =>
      let account := c.accountAt idx
      if account = actor then (.error .cannotTargetSelf, c)
      else
        let (out, c) := { c with bans := insert account c.bans }.removeAt idx
        (.ok (account, out), c)

def designateByName (c : Channel) (actor : AccountId) (targetName : Text) :
    Except OpError AccountId × Channel :=
  if !c.isOperator actor then (.error .notOperator, c)
  else
    match c.positionByName targetName with
    | none => (.error .notPresent, c)
    | some idx =>
      let heir := c.accountAt idx
      if heir = actor then (.error .cannotTargetSelf, c)
      else if heir ∈ c.heirs then (.ok heir, c)
      else (.ok heir, bump { c with heirs := c.heirs ++ [heir] })

/-! ## Operations as data -/

/-- A call of one of the operations of a channel, with its arguments. -/
inductive Op where
  | join (account : AccountId) (name : Text) (baseFlags : UInt32) (statstring : List UInt8)
  | leave (name : Text)
  | designate (actor heir : AccountId)
  | designateByName (actor : AccountId) (name : Text)
  | kick (actor target : AccountId)
  | kickByName (actor : AccountId) (name : Text)
  | ban (actor target : AccountId)
  | banByName (actor : AccountId) (name : Text)
  | unban (actor target : AccountId)
  | setOpGrant (opGrant : OpGrant)
  | setPersist (persist : Bool)

inductive Refusal where
  | join (denial : JoinDenial)
  | op (error : OpError)
  deriving DecidableEq

/-- What a call that was not refused returned. -/
inductive Returned where
  | joined (outcome : JoinOutcome)
  | left (outcome : LeaveOutcome)
  | banned (account : AccountId) (outcome : LeaveOutcome)
  | heir (account : AccountId)
  | lifted (wasBanned : Bool)
  | unit
  deriving DecidableEq

/-- Put the two sides of a call's result under the common types. -/
def report {ε α : Type} (f : ε → Refusal) (g : α → Returned) (r : Except ε α × Channel) :
    Except Refusal Returned × Channel :=
  ((r.1.mapError f).map g, r.2)

def exec (c : Channel) : Op → Except Refusal Returned × Channel
  | .join account name baseFlags statstring =>
    report .join .joined (c.join account name baseFlags statstring)
  | .leave name => report Refusal.op .left (succeed (c.leave name))
  | .designate actor heir => report .op (fun _ => .unit) (c.designate actor heir)
  | .designateByName actor name => report .op .heir (c.designateByName actor name)
  | .kick actor target => report .op .left (c.kick actor target)
  | .kickByName actor name => report .op .left (c.kickByName actor name)
  | .ban actor target => report .op .left (c.ban actor target)
  | .banByName actor name => report .op (fun r => .banned r.1 r.2) (c.banByName actor name)
  | .unban actor target => report .op .lifted (c.unban actor target)
  | .setOpGrant opGrant => (.ok .unit, c.setOpGrant opGrant)
  | .setPersist persist => (.ok .unit, c.setPersist persist)

def step (c : Channel) (op : Op) : Channel := (c.exec op).2

end Channel

/-!
## Channel names

How a channel's name decides who is its operator: `classify_name` and `op_grant_for_name` of
`crates/bnetcc-core/src/channel.rs`.
-/

inductive NameKind where
  | opOrClan
  | «public»
  | «private»
  deriving DecidableEq

def classifyName (display : Text) : NameKind :=
  let lower := display.trim.toAsciiLowercase
  if "op ".toList.isPrefixOf lower || "clan ".toList.isPrefixOf lower then .opOrClan
  else if "public".toList.isPrefixOf lower then .public
  else .private

/-- What follows the word, if the name starts with it and goes on. -/
def nameAfter (word display : Text) : Option Text :=
  if word.length < display.length ∧ Text.eqIgnoreAsciiCase (display.take word.length) word then
    let name := Text.trim (display.drop word.length)
    if name.isEmpty then none else some name
  else none

/-- The `<name>` in `Op <name>` or `Clan <name>`. -/
def designatedOpName (display : Text) : Option Text :=
  let trimmed := display.trim
  (nameAfter "op ".toList trimmed).or (nameAfter "clan ".toList trimmed)

/-- The operator-grant policy for a channel of this name. -/
def opGrantForName (display : Text) (autoOpPrivate : Bool) : OpGrant :=
  match classifyName display with
  | .opOrClan =>
    match designatedOpName display with
    | some name => .nameMatch name
    | none => .none
  | .public => .none
  | .private => if autoOpPrivate then .firstArrival else .none

end CommandCenter.Core
