import CommandCenter.Daemon.Names
import CommandCenter.Daemon.Node

/-!
# Sessions in chat

Any number of sessions of `crates/bnetccd/src/session.rs` over one node. A handler is cut where
it calls the node or queues its join snapshot, so one step of the system is one such call and what
the handler computes around it; between two steps any other session may go on. Queues are never
full here.

A name is claimed by `ActiveNames.claimName`, whose suffix is a natural number and not a `u32`. Left
out are the handlers and chat commands that neither change a channel nor read one, what
`SID_ENTERCHAT` answers, and the flood control in front of a chat line: a line that it drops is not
handled.
-/

namespace CommandCenter.Daemon

open Rust CommandCenter.Core Proto

abbrev SessionId := Nat

/-- The rest of a handler that leaves a channel. -/
inductive AfterLeave where
  | done
  | join (asked requested : List UInt8)
  | rename (chatName : Text)
  | close

/-- The account name behind a display name. -/
def accountPart (name : Text) : Text := name.takeWhile (· ≠ '#')

/-- How far the handler of a session has come, by what it does next. -/
inductive Handler where
  | offline
  | idle
  /-- `Node::enqueue_leave` for the session itself. -/
  | noticeLeave (key : Key) (next : AfterLeave)
  /-- `Node::join_channel`. -/
  | joining (asked requested : List UInt8)
  /-- The snapshot is queued. -/
  | showing (asked : List UInt8) (joined : JoinedChannel) (existing : List ChannelOccupant)
  /-- `Node::broadcast` of the arrival. -/
  | arriving (asked : List UInt8) (joined : JoinedChannel)
  /-- `Node::enqueue_leave` for a session that was removed. -/
  | noticeRemoval (key : Key) (target : Text) (targetOut : Option SessionId) (verb : Text)
  /-- `Node::broadcast` of talk. -/
  | speaking (key : Key) (event : ChatEvent) (exclude : Option Text)
  /-- `Node::release_name`, and then `Node::claim_name`. -/
  | unnaming (chatName : Text)
  | claiming (chatName : Text)
  /-- `Node::release_name` at the end of the cleanup. -/
  | releasing
  | closed

/-- The part of a session that chat depends on, with all events it was sent. -/
structure ChatSession where
  displayName : Text
  account : AccountId
  accountName : Text
  product : Option Text
  flags : UInt32
  statstring : List UInt8
  channel : Option Key
  handler : Handler
  inbox : List ChatEvent

/-- Whether the session has a display name claimed: from its logon to the end of its cleanup, but
not while it changes its name. -/
def ChatSession.named (s : ChatSession) : Bool :=
  match s.handler with
  | .offline | .claiming _ | .closed => false
  | _ => true

inductive Command where
  | join (target : Text)
  | emote (arg : Text)
  | kick (target : Text)
  | ban (target : Text)
  | unban (target : Text)
  | designate (target : Text)
  | other

/-- Whom the command removes from the channel. -/
def Command.removes : Command → Option Text
  | .kick target | .ban target => some target
  | _ => none

/-- The command in a line that begins with a slash. -/
def Command.parse (text : List UInt8) : Command :=
  let s := (Text.fromUtf8Lossy text).drop 1
  let cmd := String.ofList (Text.toAsciiLowercase (s.takeWhile (· ≠ ' ')))
  let arg := Text.trim ((s.dropWhile (· ≠ ' ')).drop 1)
  match cmd with
  | "join" | "j" => .join arg
  | "me" | "emote" => .emote arg
  | "kick" => .kick arg
  | "ban" => .ban arg
  | "unban" => .unban arg
  | "designate" | "heir" => .designate arg
  | _ => .other

/-- What makes an idle session start a handler. `adopted` is the name of the realm character as
which the client enters chat, if it is one; `muted` is whether the account may not talk, and `found`
the account that storage has under the name a command gives. -/
inductive Input where
  | enterChat (statstring : List UInt8) (adopted : Option Text)
  | joinChannel (name : List UInt8)
  | leaveChat
  | chatCommand (raw : List UInt8) (muted : Bool) (found : Option AccountId)
  | disconnect

def Command.ofLine (raw : List UInt8) : Command :=
  let text := sanitizeChatText raw
  if text.head? = some 0x2F then Command.parse text else .other

/-- The channel name that a client asks to join. -/
def Input.asks : Input → Option (List UInt8)
  | .joinChannel name => some name
  | .chatCommand raw _ _ =>
    match Command.ofLine raw with
    | .join target => some (Text.asBytes target)
    | _ => none
  | _ => none

/-- Whom a client asks to remove from its channel. -/
def Input.removes : Input → Option Text
  | .chatCommand raw _ _ => (Command.ofLine raw).removes
  | _ => none

inductive Action where
  | logOn (sid : SessionId) (account : AccountId) (accountName : Text) (product : Option Text)
      (flags : UInt32) (statstring : List UInt8)
  | start (sid : SessionId) (input : Input)
  | resume (sid : SessionId) (ignores : SessionId → Text → Bool)
  | flushPending (walk : Map.Walk Key (List ChatEvent))

def Action.logsOn : Action → Option SessionId
  | .logOn sid .. => some sid
  | _ => none

structure World where
  inner : Inner SessionId
  names : ActiveNames
  sessions : SessionId → ChatSession

namespace ChatSession

/-- A connection before its logon. -/
def new : ChatSession where
  displayName := []
  account := 0
  accountName := []
  product := none
  flags := 0
  statstring := []
  channel := none
  handler := .offline
  inbox := []

/-- Queue events for the session. -/
def receive (s : ChatSession) (events : List ChatEvent) : ChatSession :=
  { s with inbox := s.inbox ++ events }

def send (s : ChatSession) (event : ChatEvent) : ChatSession := s.receive [event]

def reply (s : ChatSession) (event : EventId) (text : String) : ChatSession :=
  s.send ⟨event, 0, [], Text.asBytes text.toList⟩

/-- What the session asks for by naming no channel. -/
def redirect (cfg : NodeConfig) (s : ChatSession) (requested : List UInt8) : List UInt8 :=
  if (Text.fromUtf8Lossy requested).trim.isEmpty then
    match s.product.bind cfg.channelRules.default with
    | some chan => Text.asBytes chan
    | none => requested
  else requested

/-- The notice that the session left. -/
def leaveEvent (s : ChatSession) : ChatEvent := ⟨.leave, s.flags, s.displayName, []⟩

def joinEvent (s : ChatSession) : ChatEvent := ⟨.join, s.flags, s.displayName, s.statstring⟩

/-- The join snapshot: the channel, those already present, and the session itself. -/
def snapshot (s : ChatSession) (joined : JoinedChannel) (existing : List ChannelOccupant) :
    List ChatEvent :=
  ⟨.channel, joined.flags, [], Text.asBytes joined.display⟩ ::
    existing.map (fun occ => ⟨.showUser, occ.flags, occ.name, occ.statstring⟩) ++
    [⟨.showUser, s.flags, s.displayName, s.statstring⟩]

end ChatSession

/-- The handler after the notice of its own departure. -/
def AfterLeave.handler : AfterLeave → Handler
  | .done => .idle
  | .join asked requested => .joining asked requested
  | .rename chatName => .unnaming chatName
  | .close => .releasing

/-- The event that answers a refused join, if there is one. -/
def denialEvent : JoinDenial → Option EventId
  | .full => some .channelFull
  | .banned | .restricted => some .channelRestricted
  | .alreadyPresent => none

namespace World

def new : World := ⟨Inner.empty, ∅, fun _ => ChatSession.new⟩

def setSession (w : World) (sid : SessionId) (s : ChatSession) : World :=
  { w with sessions := Function.update w.sessions sid s }

/-- Queue what the node sends. -/
def deliver (w : World) (sent : List (Delivery SessionId)) : World :=
  { w with sessions := fun sid => (w.sessions sid).receive (sentTo sid sent) }

/-- Claim a display name for the session. -/
def claimName (w : World) (sid : SessionId) (base : Text) : World :=
  let (displayName, names) := w.names.claimName base
  { w with names }.setSession sid { w.sessions sid with displayName, handler := .idle }

/-- Release the session's display name. -/
def releaseName (w : World) (sid : SessionId) (handler : Handler) : World :=
  let s := w.sessions sid
  { w with names := w.names.releaseName s.displayName }.setSession sid { s with handler }

/-- Leave the current channel, and go on with `next`. -/
def leaveCurrent (w : World) (sid : SessionId) (key : Key) (next : AfterLeave) : World :=
  let s := w.sessions sid
  { w with inner := (w.inner.leaveChannel key s.displayName).2 }.setSession sid
    { s with channel := none, handler := .noticeLeave key next }

/-- `Bncs::do_join`, up to its first call of the node. -/
def doJoin (cfg : NodeConfig) (w : World) (sid : SessionId) (asked : List UInt8) : World :=
  let s := w.sessions sid
  let requested := s.redirect cfg asked
  match s.channel with
  | some prev =>
    if prev = normalizeChannelName requested then w
    else w.leaveCurrent sid prev (.join asked requested)
  | none => w.setSession sid { s with handler := .joining asked requested }

/-- `Bncs::ensure_member`: the channel the session believes in, if it is still a member. -/
def ensureMember (w : World) (sid : SessionId) (key : Key) (handler : Handler) : World :=
  let s := w.sessions sid
  if w.inner.isMember key s.displayName then w.setSession sid { s with handler }
  else
    w.setSession sid
      ({ s with channel := none }.reply .error "You are no longer in a channel.")

/-- `Bncs::op_kick` and `Bncs::op_ban`, up to the notice. -/
def opRemove (w : World) (sid : SessionId) (key : Key) (target : Text) (verb verbed : String)
    (call : ModResult SessionId × Inner SessionId) : World :=
  let s := w.sessions sid
  if target.isEmpty then w.setSession sid (s.reply .error ("Usage: /" ++ verb ++ " <user>"))
  else
    match call with
    | (.notOperator, _) => w.setSession sid (s.reply .error "You are not the channel operator.")
    | (.notFound, _) => w.setSession sid (s.reply .error "No such user in this channel.")
    | (.cannotTargetSelf, _) =>
      w.setSession sid (s.reply .error ("You cannot " ++ verb ++ " yourself."))
    | (.ok targetOut _, inner) =>
      { w with inner }.setSession sid
        { s with handler := .noticeRemoval key target targetOut verbed.toList }

/-- `Bncs::op_designate` and `Bncs::op_unban` once the account is known. -/
def opTend (w : World) (sid : SessionId) (call : ModResult SessionId × Inner SessionId)
    (notFound self done : String) : World :=
  let s := w.sessions sid
  match call with
  | (.notOperator, _) => w.setSession sid (s.reply .error "You are not the channel operator.")
  | (.notFound, _) => w.setSession sid (s.reply .error notFound)
  | (.cannotTargetSelf, _) => w.setSession sid (s.reply .error self)
  | (.ok _ _, inner) => { w with inner }.setSession sid (s.reply .info done)

/-- `Bncs::slash_command`. -/
def slashCommand (cfg : NodeConfig) (w : World) (sid : SessionId) (key : Key) (muted : Bool)
    (found : Option AccountId) : Command → World
  | .join target =>
    let s := w.sessions sid
    if target.isEmpty then w.setSession sid (s.reply .error "Usage: /join <channel>")
    else w.doJoin cfg sid (Text.asBytes target)
  | .emote arg =>
    let s := w.sessions sid
    let body := sanitizeChatText (Text.asBytes arg)
    w.ensureMember sid key
      (if muted then .idle else .speaking key ⟨.emote, s.flags, s.displayName, body⟩ none)
  | .kick target =>
    w.opRemove sid key target "kick" "kicked"
      (w.inner.channelKick key (w.sessions sid).account target)
  | .ban target =>
    w.opRemove sid key target "ban" "banned"
      (w.inner.channelBan key (w.sessions sid).account target)
  | .unban target =>
    let s := w.sessions sid
    if target.isEmpty then w.setSession sid (s.reply .error "Usage: /unban <user>")
    else
      match found with
      | none => w.setSession sid (s.reply .error "No such account.")
      | some account =>
        w.opTend sid (w.inner.channelUnban key s.account account) "No such channel." ""
          ("Unbanned " ++ String.ofList target ++ ".")
  | .designate target =>
    let s := w.sessions sid
    if target.isEmpty then w.setSession sid (s.reply .error "Usage: /designate <user>")
    else
      w.opTend sid (w.inner.channelDesignate key s.account target)
        "No such user in this channel." "You cannot designate yourself."
        (String.ofList target ++ " will inherit operator when you leave.")
  | .other => w

/-- `Bncs::chat_command`, for a line that flood control lets through. -/
def chatCommand (cfg : NodeConfig) (w : World) (sid : SessionId) (raw : List UInt8) (muted : Bool)
    (found : Option AccountId) : World :=
  let s := w.sessions sid
  match s.channel with
  | none => w
  | some key =>
    let text := sanitizeChatText raw
    if text.isEmpty then w
    else if text.head? = some 0x2F then
      w.slashCommand cfg sid key muted found (Command.parse text)
    else
      w.ensureMember sid key
        (if muted then .idle
        else .speaking key ⟨.talk, s.flags, s.displayName, text⟩ (some s.displayName))

/-- `Bncs::adopt_realm_character`, up to its first call of the node. -/
def enterChat (w : World) (sid : SessionId) (statstring : List UInt8) (adopted : Option Text) :
    World :=
  let w := w.setSession sid { w.sessions sid with statstring }
  let s := w.sessions sid
  match adopted with
  | none => w
  | some chatName =>
    if (accountPart s.displayName).eqIgnoreAsciiCase chatName then w
    else
      match s.channel with
      | some key => w.leaveCurrent sid key (.rename chatName)
      | none => w.setSession sid { s with handler := .unnaming chatName }

def start (cfg : NodeConfig) (w : World) (sid : SessionId) : Input → World
  | .enterChat statstring adopted => w.enterChat sid statstring adopted
  | .joinChannel name => w.doJoin cfg sid name
  | .leaveChat =>
    match (w.sessions sid).channel with
    | some key => w.leaveCurrent sid key .done
    | none => w
  | .chatCommand raw muted found => w.chatCommand cfg sid raw muted found
  | .disconnect =>
    match (w.sessions sid).channel with
    | some key => w.leaveCurrent sid key .close
    | none => w.setSession sid { w.sessions sid with handler := .releasing }

/-- The next call of a handler that is under way. -/
def resume (cfg : NodeConfig) (w : World) (sid : SessionId) (ignores : SessionId → Text → Bool) :
    World :=
  let s := w.sessions sid
  let receivers : Receivers SessionId := ⟨fun _ => false, ignores⟩
  match s.handler with
  | .offline | .idle | .closed => w
  | .unnaming chatName => w.releaseName sid (.claiming chatName)
  | .claiming chatName => w.claimName sid chatName
  | .releasing => w.releaseName sid .closed
  | .noticeLeave key next =>
    { w with inner := w.inner.enqueueLeave key s.leaveEvent }.setSession sid
      { s with handler := next.handler }
  | .joining asked requested =>
    match w.inner.joinChannel cfg requested
        ⟨s.account, s.displayName, s.flags, s.product, s.statstring, sid⟩ with
    | (.error denial, inner) =>
      { w with inner }.setSession sid
        (match denialEvent denial with
        | some event => { s with handler := .idle }.send ⟨event, 0, [], requested⟩
        | none => { s with handler := .idle })
    | (.ok (joined, existing), inner) =>
      { w with inner }.setSession sid
        { s with
          flags := joined.outcome.flags
          channel := some joined.key
          handler := .showing asked joined existing }
  | .showing asked joined existing =>
    w.setSession sid
      ({ s with handler := .arriving asked joined }.receive (s.snapshot joined existing))
  | .arriving _ joined =>
    let (_, sent, inner) :=
      w.inner.broadcast receivers joined.key s.joinEvent (some s.displayName) none
    let w := { w with inner }.deliver sent
    let greeting := joined.topic.toList.map fun topic => ⟨.info, 0, [], Text.asBytes topic⟩
    w.setSession sid ({ w.sessions sid with handler := .idle }.receive greeting)
  | .noticeRemoval key target targetOut verb =>
    let told : ChatEvent := ⟨.error, 0, [], Text.asBytes
      ("You were ".toList ++ verb ++ " from the channel by ".toList ++ s.displayName ++ ['.'])⟩
    let w := w.deliver (targetOut.toList.map fun out => (out, [told]))
    let s := w.sessions sid
    let w := { w with inner := w.inner.enqueueLeave key ⟨.leave, 0, target, []⟩ }
    w.setSession sid ({ s with handler := .idle }.send ⟨.info, 0, [], Text.asBytes
      ("You ".toList ++ verb ++ ' ' :: target ++ ['.'])⟩)
  | .speaking key event exclude =>
    let (_, sent, inner) := w.inner.broadcast receivers key event exclude (some s.accountName)
    let w := { w with inner }.deliver sent
    w.setSession sid { w.sessions sid with handler := .idle }

/-- One step. A session logs on once, and a handler starts on an idle session. -/
def step (cfg : NodeConfig) (w : World) : Action → World
  | .logOn sid account accountName product flags statstring =>
    if (w.sessions sid).handler matches .offline then
      (w.setSession sid { ChatSession.new with account, accountName, product, flags, statstring }
        ).claimName sid accountName
    else w
  | .start sid input =>
    if (w.sessions sid).handler matches .idle then w.start cfg sid input else w
  | .resume sid ignores => w.resume cfg sid ignores
  | .flushPending walk =>
    let (sent, inner) := w.inner.flushPending walk
    { w with inner }.deliver sent

/-! ## A small channel -/

/-- Channels without rules and without limits. -/
def openChannels : NodeConfig := ⟨⟨∅, ∅⟩, ⟨0, 0, 0⟩, true⟩

def den : List UInt8 := Text.asBytes "den".toList

/-- A session logs on and joins the channel. -/
def comesToDen (sid : SessionId) (name : String) : List Action :=
  [.logOn sid sid name.toList none 0 [], .start sid (.joinChannel den),
    .resume sid fun _ _ => false, .resume sid fun _ _ => false, .resume sid fun _ _ => false]

end World

end CommandCenter.Daemon
