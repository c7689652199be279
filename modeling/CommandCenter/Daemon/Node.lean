import CommandCenter.Core.Channel
import CommandCenter.Proto.Chat
import CommandCenter.Rust.Map
import CommandCenter.Rust.Utf8

/-!
# Shared node state

The channels of a node, from `crates/bnetccd/src/node.rs` and the channel rules of
`crates/bnetccd/src/config.rs`. Each method takes the node lock once, so each is one step on
`Inner`. Advertised games have a map of their own and are left out; of a rule, only what the
methods here read is kept.

A queue entry is a list of events, and a batch of leave notices is one entry. `Outbound` handles
are left open, and so is what a method finds of their owners (`Receivers`).
-/

namespace CommandCenter.Daemon

open Rust CommandCenter.Core Proto

/-- A normalised channel name. -/
abbrev Key := List UInt8

structure ResolvedChannel where
  «public» : Bool
  persist : Bool
  maxUsers : Option Nat
  topic : Option Text
  minFlag : UInt32
  products : List Text

structure ChannelRules where
  byKey : Map Key ResolvedChannel
  defaultChannel : Map Text Text

namespace ChannelRules

/-- The rule for a channel by its normalised key, if one is defined. -/
def get (rules : ChannelRules) (key : Key) : Option ResolvedChannel := rules.byKey.lookup key

/-- The default channel for a product, if one is configured. -/
def default (rules : ChannelRules) (product : Text) : Option Text :=
  rules.defaultChannel.lookup product.toAsciiUppercase

end ChannelRules

/-- Default channel caps per category; zero is unlimited. -/
structure ChannelCaps where
  «private» : Nat
  «public» : Nat
  clan : Nat

/-- The cap for a channel, chosen from its name. -/
def ChannelCaps.forName (caps : ChannelCaps) (display : Text) : Nat :=
  match classifyName display with
  | .public => caps.public
  | .opOrClan => caps.clan
  | .private => caps.private

/-- The configuration that the channel methods read. -/
structure NodeConfig where
  channelRules : ChannelRules
  channelCaps : ChannelCaps
  autoOpPrivate : Bool

/-- A user already present when another joined. -/
structure ChannelOccupant where
  name : Text
  flags : UInt32
  statstring : List UInt8

/-- What a user who joined is told of the channel. -/
structure JoinedChannel where
  key : Key
  display : Text
  flags : UInt32
  outcome : JoinOutcome
  topic : Option Text

structure Joiner (Out : Type) where
  account : AccountId
  displayName : Text
  baseFlags : UInt32
  product : Option Text
  statstring : List UInt8
  out : Out

/-- The outcome of an operator moderation action. -/
inductive ModResult (Out : Type) where
  | notOperator
  | notFound
  | cannotTargetSelf
  | ok (targetOut : Option Out) (newOperator : Option AccountId)

/-- Channels, the subscribers of each by display name, and the leave notices queued for each. -/
structure Inner (Out : Type) where
  channels : Map Key Channel
  subscribers : Map Key (List (Text × Out))
  pendingLeaves : Map Key (List ChatEvent)

/-- Events handed to an outbound queue. -/
abbrev Delivery (Out : Type) := Out × List ChatEvent

/-- The events that one queue is handed. -/
def sentTo {Out : Type} [DecidableEq Out] (out : Out) (sent : List (Delivery Out)) :
    List ChatEvent :=
  (sent.filter (·.1 = out)).flatMap Prod.snd

/-- Whose queue is full, and whom each receiver ignores. -/
structure Receivers (Out : Type) where
  full : Out → Bool
  ignores : Out → Text → Bool

variable {Out : Type}

/-- The result of a moderation action that was refused. -/
def ModResult.ofOpError : OpError → ModResult Out
  | .notOperator => .notOperator
  | .notPresent => .notFound
  | .cannotTargetSelf => .cannotTargetSelf

/-- Whether a defined channel admits a user with these flags and this product. -/
def ResolvedChannel.admits (rule : ResolvedChannel) (baseFlags : UInt32)
    (product : Option Text) : Bool :=
  (rule.minFlag == 0 || baseFlags &&& rule.minFlag != 0) &&
    (rule.products.isEmpty ||
      match product with
      | some p => rule.products.contains p.toAsciiUppercase
      | none => false)

/-- The channel that the first user to enter creates. -/
def newChannel (cfg : NodeConfig) (key : Key) (display : Text) : Channel :=
  let rule := cfg.channelRules.get key
  let maxUsers := (rule.bind ResolvedChannel.maxUsers).getD (cfg.channelCaps.forName display)
  let opGrant :=
    match rule with
    | some r => if r.public then .none else opGrantForName display cfg.autoOpPrivate
    | none => opGrantForName display cfg.autoOpPrivate
  let c := (Channel.new key display .local maxUsers).setOpGrant opGrant
  match rule with
  | some r => c.setPersist r.persist
  | none => c

/-- The roster that a newcomer is shown. -/
def occupants (c : Channel) : List ChannelOccupant :=
  c.members.map fun m => ⟨m.name, m.flags, m.statstring⟩

namespace Inner

def empty : Inner Out := ⟨∅, ∅, ∅⟩

def setChannel (inner : Inner Out) (key : Key) (channel : Channel) : Inner Out :=
  { inner with channels := inner.channels.insert key channel }

def setSubscribers (inner : Inner Out) (key : Key) (subs : List (Text × Out)) : Inner Out :=
  { inner with subscribers := inner.subscribers.insert key subs }

/-- Join a channel, creating it if it does not exist. -/
def joinChannel (cfg : NodeConfig) (inner : Inner Out) (rawName : List UInt8)
    (joiner : Joiner Out) :
    Except JoinDenial (JoinedChannel × List ChannelOccupant) × Inner Out :=
  let key := normalizeChannelName rawName
  if key.isEmpty then (.error .full, inner)
  else
    let display := (Text.fromUtf8Lossy rawName).trim
    let rule := cfg.channelRules.get key
    if !rule.all (·.admits joiner.baseFlags joiner.product) then (.error .restricted, inner)
    else
      let topic := rule.bind ResolvedChannel.topic
      let channel := (inner.channels.lookup key).getD (newChannel cfg key display)
      let existing := occupants channel
      let (result, channel) :=
        channel.join joiner.account joiner.displayName joiner.baseFlags joiner.statstring
      let inner := inner.setChannel key channel
      match result with
      | .error denial => (.error denial, inner)
      | .ok outcome =>
        let subs := (inner.subscribers.lookup key).getD []
        (.ok (⟨key, channel.display, channel.flags, outcome, topic⟩, existing),
          inner.setSubscribers key (subs ++ [(joiner.displayName, joiner.out)]))

/-- Forget a channel and all that is kept for it. -/
def destroy (inner : Inner Out) (key : Key) : Inner Out :=
  ⟨inner.channels.erase key, inner.subscribers.erase key, inner.pendingLeaves.erase key⟩

/-- Leave a channel, destroying it if it is now empty and not persistent. -/
def leaveChannel (inner : Inner Out) (key : Key) (displayName : Text) :
    Option AccountId × Inner Out :=
  match inner.channels.lookup key with
  | none => (none, inner)
  | some channel =>
    let (outcome, channel) := channel.leave displayName
    let inner := inner.setChannel key channel
    let inner :=
      match inner.subscribers.lookup key with
      | some subs =>
        inner.setSubscribers key (subs.filter fun s => !s.1.eqIgnoreAsciiCase displayName)
      | none => inner
    (outcome.newOperator, if outcome.shouldDestroy then inner.destroy key else inner)

/-- Whether the session is a member of the channel. -/
def isMember (inner : Inner Out) (key : Key) (displayName : Text) : Bool :=
  (inner.channels.lookup key).any
    (·.members.any fun m => m.name.eqIgnoreAsciiCase displayName)

/-- Remove a subscriber by display name from a channel's fan-out list. -/
def pullSubscriber (inner : Inner Out) (key : Key) (name : Text) : Option Out × Inner Out :=
  match inner.subscribers.lookup key with
  | none => (none, inner)
  | some subs =>
    match subs.findFinIdx? fun s => s.1.eqIgnoreAsciiCase name with
    | none => (none, inner)
    | some pos =>
      (some subs[pos].2, inner.setSubscribers key (subs.eraseIdx pos))

/-- Remove a session from a channel by an operator's action. -/
def removeByOperator (inner : Inner Out) (key : Key) (targetName : Text)
    (action : Channel → Except OpError LeaveOutcome × Channel) : ModResult Out × Inner Out :=
  match inner.channels.lookup key with
  | none => (.notFound, inner)
  | some channel =>
    match action channel with
    | (.error e, _) => (.ofOpError e, inner)
    | (.ok outcome, channel) =>
      let inner := inner.setChannel key channel
      let (targetOut, inner) := inner.pullSubscriber key targetName
      (.ok targetOut outcome.newOperator,
        if outcome.shouldDestroy then inner.destroy key else inner)

/-- Kick the session shown as `targetName` from the channel. -/
def channelKick (inner : Inner Out) (key : Key) (actor : AccountId) (targetName : Text) :
    ModResult Out × Inner Out :=
  inner.removeByOperator key targetName fun c => c.kickByName actor targetName

/-- Ban the account behind the session shown as `targetName` and remove that session. -/
def channelBan (inner : Inner Out) (key : Key) (actor : AccountId) (targetName : Text) :
    ModResult Out × Inner Out :=
  inner.removeByOperator key targetName fun c =>
    let (result, c) := c.banByName actor targetName
    (result.map Prod.snd, c)

/-- Nominate the session shown as `targetName` as the operator's heir. -/
def channelDesignate (inner : Inner Out) (key : Key) (actor : AccountId) (targetName : Text) :
    ModResult Out × Inner Out :=
  match inner.channels.lookup key with
  | none => (.notFound, inner)
  | some channel =>
    match channel.designateByName actor targetName with
    | (.error e, _) => (.ofOpError e, inner)
    | (.ok _, channel) => (.ok none none, inner.setChannel key channel)

def channelUnban (inner : Inner Out) (key : Key) (actor target : AccountId) :
    ModResult Out × Inner Out :=
  match inner.channels.lookup key with
  | none => (.notFound, inner)
  | some channel =>
    match channel.unban actor target with
    | (.error _, _) => (.notOperator, inner)
    | (.ok _, channel) => (.ok none none, inner.setChannel key channel)

/-! ## Notices -/

/-- Hand a channel's queued leave notices to every subscriber, as one entry. -/
def flushLeaves (inner : Inner Out) (key : Key) : List (Delivery Out) × Inner Out :=
  match inner.pendingLeaves.lookup key with
  | none => ([], inner)
  | some events =>
    let inner := { inner with pendingLeaves := inner.pendingLeaves.erase key }
    if events.isEmpty then ([], inner)
    else
      match inner.subscribers.lookup key with
      | none => ([], inner)
      | some subs => (subs.map fun s => (s.2, events), inner)

/-- Send an event to every subscriber of a channel, after its queued leave notices. Returns the
subscribers whose queue was full. -/
def broadcast (receivers : Receivers Out) (inner : Inner Out) (key : Key) (wire : ChatEvent)
    (exclude senderBase : Option Text) : List Text × List (Delivery Out) × Inner Out :=
  let (flushed, inner) := inner.flushLeaves key
  match inner.subscribers.lookup key with
  | none => ([], flushed, inner)
  | some subs =>
    let excluded := fun s : Text × Out => exclude.any (s.1.eqIgnoreAsciiCase ·)
    let ignored := fun s : Text × Out =>
      senderBase.any fun base => receivers.ignores s.2 base.toAsciiLowercase
    let audience := subs.filter fun s => !excluded s && !ignored s
    let (stalled, reached) := audience.partition fun s => receivers.full s.2
    (stalled.map Prod.fst, flushed ++ reached.map fun s => (s.2, [wire]), inner)

/-- Queue a leave notice for the next flush of its channel. -/
def enqueueLeave (inner : Inner Out) (key : Key) (frame : ChatEvent) : Inner Out :=
  if key ∈ inner.subscribers then
    let events := (inner.pendingLeaves.lookup key).getD []
    { inner with pendingLeaves := inner.pendingLeaves.insert key (events ++ [frame]) }
  else inner

def flushAll (inner : Inner Out) : List Key → List (Delivery Out) × Inner Out
  | [] => ([], inner)
  | key :: keys =>
    let (sent, inner) := inner.flushLeaves key
    let (rest, inner) := flushAll inner keys
    (sent ++ rest, inner)

/-- Flush every channel's queued leave notices. -/
def flushPending (walk : Map.Walk Key (List ChatEvent)) (inner : Inner Out) :
    List (Delivery Out) × Inner Out :=
  inner.flushAll ((walk.order inner.pendingLeaves).map Sigma.fst)

end Inner

end CommandCenter.Daemon
