import CommandCenter.Core.KeyRegistry
import CommandCenter.Core.Policy
import CommandCenter.Core.Session
import CommandCenter.Crypto.Nls
import CommandCenter.Library.Requests
import CommandCenter.Proto.Product
import CommandCenter.Proto.Reader
import CommandCenter.Storage.Model

/-!
# A BNCS session

`struct Bncs` of `crates/bnetccd/src/session.rs` and what it asks of the node. A handler is a
program over the session's own fields that makes requests of the node, of the storage behind it
and of the clock, one at a time; whatever other sessions do happens between two requests.

What a session shows in chat (its statstring, channel and flood budget) is left out, and so are
logs, the UDP test, realm tickets and announcements. The packets whose handlers touch nothing
that is kept here are one request, `elsewhere`.
-/

namespace CommandCenter.Daemon

open Rust CommandCenter.Core Proto Library
open Storage (Account AttrKey AttrMap)

/-- How a finished game ended for a player. -/
inductive GameOutcome where
  | win
  | loss
  | draw
  | disconnect
  deriving DecidableEq

/-- The outcome of a `SID_GAMERESULT` slot; an empty one has none. -/
def GameOutcome.fromCode (code : UInt32) : Option GameOutcome :=
  if code = 1 then some .win
  else if code = 2 then some .loss
  else if code = 3 then some .draw
  else if code = 4 then some .disconnect
  else none

inductive League where
  | normal
  | ladder
  | ironMan
  deriving DecidableEq

/-- Anything but a ladder and an Iron Man game is normal. -/
def League.fromCode (code : UInt32) : League :=
  if code = 1 then ladder else if code = 3 then ironMan else normal

/-- The index in the attribute keys of the records. -/
def League.index : League → Text
  | normal => ['0']
  | ladder => ['1']
  | ironMan => ['3']

/-- The outcome of trying to claim a CD key. -/
inductive KeyClaim where
  | ok
  | inUse (holder : Text)
  | banned
  deriving DecidableEq

structure GameAd where
  name : List UInt8
  password : List UInt8
  statstring : List UInt8
  gameType : UInt16
  parameter : UInt16
  state : UInt32
  product : Option FourCc
  port : UInt16
  hostIp : UInt32
  host : AccountId
  created : Nat

/-- A game that a session hosted or joined, and since when. -/
structure GameSeat where
  name : List UInt8
  since : Nat

/-- A WarCraft III logon between the challenge and the proof. -/
structure SrpPending where
  account : Account
  bareName : Text
  salt : Bytes 32
  verifier : Bytes 32
  b : Bytes 32
  clientPublic : Bytes 32
  serverPublic : Bytes 32

/-- Whether the session goes on after a frame. -/
inductive Step where
  | continue
  | close
  deriving DecidableEq

/-- The version bytes that are allowed for a product and a platform, if that is restricted. -/
structure VersionPolicy where
  restrict : Bool
  allowed : Map (FourCc × FourCc) (List UInt32)

def VersionPolicy.allows (policy : VersionPolicy) (product platform : FourCc)
    (versionByte : UInt32) : Bool :=
  !policy.restrict ||
    ((policy.allowed.lookup (product, platform)).any fun bytes => versionByte ∈ bytes)

/-- The configuration that the session reads. Times are milliseconds. -/
structure ServerConfig where
  versionPolicy : VersionPolicy
  cdKeyUniqueness : Bool
  wc3LegacyLogon : Bool
  realm : Text
  gameHosting : Bool
  minGameLength : Nat
  clients : ClientLimits
  allowlist : List IpAddr
  /-- The `sha1` crate's. -/
  sha1 : List UInt8 → Bytes 20

structure Bncs where
  peer : IpAddr
  /-- `class` in the source: what the connection is counted as. -/
  client : ClientClass
  state : SessionState
  serverToken : UInt32
  product : Option FourCc
  platform : Option FourCc
  versionByte : Option UInt32
  claimedKeys : List KeyId
  account : Option Account
  displayName : Text
  flags : UInt32
  gamePort : UInt16
  hostingGame : Bool
  gameSeat : Option GameSeat
  srp : Option SrpPending

/-- A session that has just been accepted. -/
def Bncs.new (peer : IpAddr) (serverToken : UInt32) : Bncs where
  peer
  client := .gamePending
  state := .connected
  serverToken
  product := none
  platform := none
  versionByte := none
  claimedKeys := []
  account := none
  displayName := []
  flags := 0
  gamePort := 6112
  hostingGame := false
  gameSeat := none
  srp := none

/-! ## Requests -/

inductive Request where
  | sendFrame (frame : Frame)
  | nowMs
  /-- `Instant::now`. -/
  | instant
  /-- `rand::random`. -/
  | random
  /-- Whether a task on the blocking pool came to its end. -/
  | spawnBlocking
  | fileMtime (filename : List UInt8)
  | reclassify (ip : IpAddr) (source target : ClientClass)
  | release (client : ClientClass) (ip : IpAddr)
  | claimKey (key : KeyId) (now : Nat)
  | releaseKey (key : KeyId) (now : Nat)
  | recordKeyHolderName (key : KeyId) (name : Text)
  | account (name : Text)
  | isTagBanned (name : Text)
  | isAdmin (name : Text)
  | userFlags (account : AccountId)
  | recordLogin (account : AccountId) (secs : Nat)
  | claimName (base : Text)
  | releaseName (display : Text)
  | registerSession (display : Text) (ip : IpAddr) (product : Option FourCc)
  | unregisterSession (display : Text)
  | readReadableAttrs (account : Text) (keys : List AttrKey)
  | advertiseGame (ad : GameAd)
  | withdrawGame (account : AccountId)
  | recordHostedGame (product : Text)
  | markGameStarted (product : Option FourCc) (name : List UInt8)
  | gameStartedAt (product : Option FourCc) (name : List UInt8)
  | recordGame (account : AccountId) (product : Text) (outcome : GameOutcome)
  | recordLadderGame (account : AccountId) (player product : Text) (league : League)
      (outcome : GameOutcome) (opponent : UInt32)
  /-- The handler of a packet that is not modelled here. -/
  | elsewhere (frame : Frame)

/-- What a handler that is not modelled leaves behind. -/
structure Elsewhere where
  step : Step
  displayName : Text
  flags : UInt32

@[reducible] def Reply : Request → Type
  | .sendFrame _ | .spawnBlocking | .isTagBanned _ | .isAdmin _ | .advertiseGame _ => Bool
  | .nowMs | .instant => Nat
  | .random => Bytes 32
  | .fileMtime _ | .gameStartedAt _ _ => Option Nat
  | .reclassify _ _ _ => Except Rejection Unit
  | .claimKey _ _ => KeyClaim
  | .account _ => Option Account
  | .userFlags _ => UInt32
  | .claimName _ => Text
  | .readReadableAttrs _ _ => AttrMap
  | .recordGame _ _ _ => Except Text Nat
  | .recordLadderGame _ _ _ _ _ _ => Except Text UInt32
  | .elsewhere _ => Elsewhere
  | .release _ _ | .releaseKey _ _ | .recordKeyHolderName _ _ | .recordLogin _ _ | .releaseName _
  | .registerSession _ _ _ | .unregisterSession _ | .withdrawGame _ | .recordHostedGame _
  | .markGameStarted _ _ => Unit

abbrev Program := Asking Request Reply

/-- A handler: whether the session goes on, and its fields. -/
abbrev Handling := Program (Step × Bncs)

def ask (q : Request) : Program (Reply q) := .request q

namespace Bncs

/-- Queue a frame; the session of a peer that does not read is closed. -/
def send (s : Bncs) (frame : Frame) : Handling := do
  let queued : Bool ← ask (.sendFrame frame)
  return (if queued then .continue else .close, s)

end Bncs

end CommandCenter.Daemon
