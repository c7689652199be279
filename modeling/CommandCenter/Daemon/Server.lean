import Mathlib.Logic.Function.Basic
import CommandCenter.Daemon.Games
import CommandCenter.Daemon.Handshake
import CommandCenter.Daemon.Logon

/-!
# Connections to the daemon

The life of a connection, from `crates/bnetccd/src/session.rs`: `handle` admits it, `bncs_session`
passes the frames of a game client to `Bncs::handle` one after the other, and when the session
ends, `Bncs::cleanup` and then the release of the connection. Gateway, BNFTP and realm
connections are admitted and released, and no more.

A `Server` is the part of the node that connections share, here the admission table and the CD
keys, and all connections with what each has done. Its step is one thing that happens: a
connection comes, a frame arrives, the next request of a program is answered, or a peer is gone.
Answers that come from parts of the node that are left out are part of the event.
-/

namespace CommandCenter.Daemon

open Rust CommandCenter.Core Proto Library
open Storage (Account)

/-! ## Frames -/

namespace Bncs

/-- Packets that are accepted and not acted on. -/
def ignored : List UInt8 :=
  [Sid.null, Sid.ping, Sid.udpPingResponse, Sid.clickAd, Sid.clientId, Sid.clientId2,
    Sid.localeInfo, Sid.systemInfo, Sid.displayAd]

/-- The handlers that touch nothing kept here but the flags and the display name. -/
def elsewhere (s : Bncs) (frame : Frame) : Handling := do
  let left : Elsewhere ← ask (.elsewhere frame)
  return (left.step, { s with displayName := left.displayName, flags := left.flags })

def dispatch (cfg : ServerConfig) (s : Bncs) (frame : Frame) : Handling :=
  if frame.id = Sid.authInfo then s.authInfo cfg frame
  else if frame.id = Sid.authCheck then s.authCheck cfg frame
  else if frame.id = Sid.startVersioning then s.startVersioning frame
  else if frame.id = Sid.reportVersion then s.reportVersion cfg
  else if frame.id = Sid.logonResponse then s.logon frame Sid.logonResponse
  else if frame.id = Sid.logonResponse2 then s.logon frame Sid.logonResponse2
  else if frame.id = Sid.authAccountLogon then s.authAccountLogon cfg frame
  else if frame.id = Sid.authAccountLogonProof then s.authAccountLogonProof cfg frame
  else if frame.id = Sid.startAdvEx3 then s.advertise cfg frame
  else if frame.id = Sid.stopAdv then s.stopAdvertising true
  else if frame.id = Sid.leaveGame then s.stopAdvertising false
  else if frame.id = Sid.notifyJoin then s.notifyJoin frame
  else if frame.id = Sid.netGamePort then s.netGamePort frame
  else if frame.id = Sid.gameResult then s.gameResult cfg frame
  else if frame.id ∈ ignored then return (.continue, s)
  else s.elsewhere frame

/-- The state after a handler that went well. A failed logon leaves no account, and the session
where it was. -/
def advance (s : Bncs) (id : UInt8) : Bncs :=
  match s.state.nextOnSuccess id with
  | none => s
  | some next => if next ≠ .loggedIn ∨ s.account.isSome then { s with state := next } else s

def handle (cfg : ServerConfig) (s : Bncs) (frame : Frame) : Handling := do
  let (step, s) ← s.dispatch cfg frame
  return (step, if step = .continue then s.advance frame.id else s)

def cleanup (s : Bncs) : Program Unit := do
  let now : Nat ← ask .nowMs
  releaseKeys now s.claimedKeys
  -- a game must never outlive the connection hosting it
  s.withdrawGame
  if s.displayName ≠ [] then
    let _ : Unit ← ask (.unregisterSession s.displayName)
    let _ : Unit ← ask (.releaseName s.displayName)

/-- What follows the last frame. -/
def leave (s : Bncs) : Program Unit := do
  s.cleanup
  ask (.release s.client s.peer)

end Bncs

/-! ## Connections -/

abbrev ConnId := Nat

inductive Conn where
  | unused
  /-- A gateway, BNFTP or realm connection. -/
  | plain (client : ClientClass) (ip : IpAddr)
  | idle (s : Bncs)
  /-- `s` is the session as it was when the frame arrived. -/
  | handling (s : Bncs) (frame : Frame) (rest : Handling)
  | leaving (s : Bncs) (rest : Program Unit)
  | ended

/-- The first byte of a connection. -/
inductive ProtocolSelector where
  | game
  | bnftp
  | chat
  deriving DecidableEq

def ProtocolSelector.fromByte (b : UInt8) : Option ProtocolSelector :=
  if b = 0x01 then some game
  else if b = 0x02 then some bnftp
  else if b = 0x03 ∨ b = 0x43 ∨ b = 0x63 then some chat
  else none

/-- The class that a connection is admitted under. -/
def ProtocolSelector.client : ProtocolSelector → ClientClass
  | game => .gamePending
  | bnftp => .bnftp
  | chat => .gateway

/-- Something that a session did. -/
inductive Entry where
  | took (frame : Frame)
  | asked (q : Request) (answer : Reply q)

/-- What the connections share, the connections, and what each has done. -/
structure Server where
  admission : AdmissionTable
  keys : KeyRegistry
  keyHolderNames : Map KeyId Text
  conns : ConnId → Conn
  log : ConnId → List Entry

/-- The connection of an admitted client. -/
def Conn.accepted (selector : ProtocolSelector) (ip : IpAddr) (realm : Bool)
    (serverToken : UInt32) : Conn :=
  match selector, realm with
  | .game, false => .idle (.new ip serverToken)
  | _, _ => .plain selector.client ip

/-- The connection of a session that takes no more frames. -/
def Conn.leave (s : Bncs) : Conn := .leaving s s.leave

/-- The connection of a session that is as far with a frame as `rest` says. -/
def Conn.settle (s : Bncs) (frame : Frame) : Handling → Conn
  | .done (.continue, s') => .idle s'
  | .done (.close, s') => .leave { s' with state := .closing }
  | .ask q next => .handling s frame (.ask q next)

/-- The connection of a session that is as far with leaving as `rest` says. -/
def Conn.settleLeaving (s : Bncs) : Program Unit → Conn
  | .done _ => .ended
  | .ask q next => .leaving s (.ask q next)

namespace Server

/-- No connections yet, and CD keys in any state. -/
def new (cfg : ServerConfig) (keys : KeyRegistry) (keyHolderNames : Map KeyId Text) : Server where
  admission := AdmissionTable.new.setAllowlist cfg.allowlist
  keys
  keyHolderNames
  conns _ := .unused
  log _ := []

def setConn (v : Server) (i : ConnId) (conn : Conn) : Server :=
  { v with conns := Function.update v.conns i conn }

def note (v : Server) (i : ConnId) (entry : Entry) : Server :=
  { v with log := Function.update v.log i (v.log i ++ [entry]) }

/-- `Node::claim_key`, for nobody in particular. -/
def claimKey (v : Server) (key : KeyId) (now : Nat) : KeyClaim × Server :=
  match v.keys.claim key 0 now with
  | (.ok, keys) => (.ok, { v with keys })
  | (.inUse _, keys) => (.inUse ((v.keyHolderNames.lookup key).getD []), { v with keys })
  | (.banned, keys) => (.banned, { v with keys })

/-- The answer to a request; `other` is the answer of the parts that are left out. -/
def answer (cfg : ServerConfig) (v : Server) : (q : Request) → Reply q → Reply q × Server
  | .reclassify ip source target, _ =>
    let (result, admission) :=
      v.admission.reclassify ip source target (cfg.clients.forClass target)
    (result, { v with admission })
  | .release client ip, _ => ((), { v with admission := v.admission.release client ip })
  | .claimKey key now, _ => v.claimKey key now
  | .releaseKey key now, _ =>
    ((), { v with keys := v.keys.release key now, keyHolderNames := v.keyHolderNames.erase key })
  | .recordKeyHolderName key name, _ =>
    ((), { v with keyHolderNames := v.keyHolderNames.insert key name })
  | _, other => (other, v)

/-- The session of a connection, with the fields it had at its last frame. -/
def session (v : Server) (i : ConnId) : Option Bncs :=
  match v.conns i with
  | .idle s | .handling s _ _ | .leaving s _ => some s
  | _ => none

/-- The session that takes a frame that arrives on a connection. -/
def taking (v : Server) (i : ConnId) (frame : Frame) : Option Bncs :=
  match v.conns i with
  | .idle s => if s.state.accepts frame.id then some s else none
  | _ => none

/-- The request that a connection makes next. -/
def asking (v : Server) (i : ConnId) : Option Request :=
  match v.conns i with
  | .handling _ _ (.ask q _) => some q
  | .leaving _ (.ask q _) => some q
  | _ => none

inductive Event where
  /-- A connection sends its first byte. Behind it may be a Diablo II realm connection. -/
  | accepts (i : ConnId) (selector : UInt8) (ip : IpAddr) (realm : Bool) (serverToken : UInt32)
  | frame (i : ConnId) (frame : Frame)
  | turn (i : ConnId) (others : (q : Request) → Reply q)
  /-- The peer is gone, silent for too long, sent no frame at all, or was forced off. -/
  | hangUp (i : ConnId)

def accepts (cfg : ServerConfig) (v : Server) (i : ConnId) (selector : ProtocolSelector)
    (ip : IpAddr) (realm : Bool) (serverToken : UInt32) : Server :=
  let client := selector.client
  match v.admission.admitConnection client ip (cfg.clients.forClass client) with
  | (.error _, _) => v.setConn i .ended
  | (.ok _, admission) =>
    { v with admission }.setConn i (.accepted selector ip realm serverToken)

/-- A frame arrives. After the logon, packets that are not accepted are passed over. -/
def takesFrame (cfg : ServerConfig) (v : Server) (i : ConnId) (s : Bncs) (frame : Frame) : Server :=
  if s.state.accepts frame.id then
    (v.note i (.took frame)).setConn i (.settle s frame (s.handle cfg frame))
  else if s.state.authenticated then v
  else v.setConn i (.leave { s with state := .closing })

def step (cfg : ServerConfig) (v : Server) : Event → Server
  | .accepts i selector ip realm serverToken =>
    match v.conns i, ProtocolSelector.fromByte selector with
    | .unused, some selector => v.accepts cfg i selector ip realm serverToken
    | _, _ => v
  | .frame i frame =>
    match v.conns i with
    | .idle s => v.takesFrame cfg i s frame
    | _ => v
  | .turn i others =>
    match v.conns i with
    | .handling s frame (.ask q next) =>
      let r := v.answer cfg q (others q)
      (r.2.note i (.asked q r.1)).setConn i (.settle s frame (next r.1))
    | .leaving s (.ask q next) =>
      let r := v.answer cfg q (others q)
      (r.2.note i (.asked q r.1)).setConn i (.settleLeaving s (next r.1))
    | _ => v
  | .hangUp i =>
    match v.conns i with
    | .idle s => v.setConn i (.leave s)
    | .plain client ip =>
      { v with admission := v.admission.release client ip }.setConn i .ended
    | _ => v

/-! ## Plain sailing -/

/-- The answers of a node where all is in order and every name is that of one account. -/
def inOrder (account : Account) : (q : Request) → Reply q
  | .sendFrame _ => true
  | .spawnBlocking => true
  | .isTagBanned _ => false
  | .isAdmin _ => false
  | .advertiseGame _ => true
  | .nowMs => 0
  | .instant => 0
  | .random => .replicate 32 0
  | .fileMtime _ => none
  | .gameStartedAt _ _ => none
  | .reclassify _ _ _ => .ok ()
  | .claimKey _ _ => KeyClaim.ok
  | .account _ => some account
  | .userFlags _ => 0
  | .claimName base => base
  | .readReadableAttrs _ _ => ∅
  | .recordGame _ _ _ => .ok 1
  | .recordLadderGame _ _ _ _ _ _ => .ok startRating
  | .elsewhere _ => ⟨.continue, account.name, 0⟩
  | .release _ _ => ()
  | .releaseKey _ _ => ()
  | .recordKeyHolderName _ _ => ()
  | .recordLogin _ _ => ()
  | .releaseName _ => ()
  | .registerSession _ _ _ => ()
  | .unregisterSession _ => ()
  | .withdrawGame _ => ()
  | .recordHostedGame _ => ()
  | .markGameStarted _ _ => ()

/-- A frame, and the answers to what its handler asks for, which is at most 12 times. -/
def exchange (account : Account) (i : ConnId) (frame : Frame) : List Event :=
  .frame i frame :: List.replicate 12 (.turn i (inOrder account))

/-- An account with a digest of zeros. -/
def alice : Account := ⟨1, "alice".toList, .xsha1 (.replicate 20 0), 0⟩

/-- A client of a product and version `0xD3`. -/
def authInfoFrame (product : FourCc) : Frame :=
  ⟨Sid.authInfo, Writer.u32 0 ++ Writer.u32 (FourCc.fromAscii 'I' 'X' '8' '6').value ++
    Writer.u32 product.value ++ Writer.u32 0xD3⟩

def logonBody (serverToken : UInt32) : List UInt8 :=
  Writer.u32 0 ++ Writer.u32 serverToken ++
    (Crypto.logonProof 0 serverToken (.replicate 20 0)).toList ++ Writer.cstr alice.name.asBytes

/-- A session of Alice's, up to its logon. -/
def logsOn (i : ConnId) : List Event :=
  .accepts i 0x01 (.v4 1) false 7 :: exchange alice i (authInfoFrame Product.star) ++
    exchange alice i ⟨Sid.authCheck, []⟩ ++ exchange alice i ⟨Sid.logonResponse2, logonBody 7⟩

end Server

def ServerConfig.lenient : ServerConfig where
  versionPolicy := ⟨false, ∅⟩
  cdKeyUniqueness := false
  wc3LegacyLogon := false
  realm := "Realm".toList
  gameHosting := true
  minGameLength := 0
  clients := ⟨⟨9, 9, 9⟩, ⟨9, 9, 9⟩, ⟨9, 9, 9⟩, ⟨9, 9, 9⟩, ∅⟩
  allowlist := []
  sha1 _ := .replicate 20 0

end CommandCenter.Daemon
