import CommandCenter.Daemon.Lobby

/-!
# The link to the game server

`crates/bnetccd/src/gslink.rs` and the messages of `crates/bnetcc-gslink/src/lib.rs`. Every
connection of a game server and every request of the realm is a task of its own; what a task does
between two of its locks, atomic operations and awaits is one step. A queue from a request to a
connection's writer holds 64 messages.

`sends` and `answers` are the history of what requests have put into queues and of which message has
answered which request.
-/

namespace CommandCenter.Daemon.GameServerLink

open Rust CommandCenter.Core

def version : UInt32 := 2

def minVersion : UInt32 := 1

def lobbyVersion : UInt32 := 2

/-! ## Messages -/

/-- What the realm sends a game server. -/
inductive ToGameServer where
  | welcome
  | refused (reason : Text)
  | create (id : UInt64) (name password : Text) (difficulty : UInt8)
  | createGame (id : UInt64) (name password : Text) (difficulty : UInt8) (settings : GameSettings)
  | join (id : UInt64) (name password : Text) (account : AccountId) (character : Text)
  | listGames (id : UInt64)
  | gameInfo (id : UInt64) (name : Text)
  | mapGames (id : UInt64)
  | mapLevel (id : UInt64) (game : UInt16) (level : Int)
  | mapLive (id : UInt64) (game : UInt16) (level : Int)
  deriving DecidableEq

/-- A game, as the public status page shows it. -/
structure PublicGame where
  name : Text
  «private» : Bool
  difficulty : UInt8
  players : Nat
  ageSecs : Nat
  deriving DecidableEq

/-- What a game server sends the realm. -/
inductive FromGameServer where
  | hello (token : Text) (version : UInt32)
  | created (id : UInt64) (result : Except CreateError UInt16)
  | joined (id : UInt64) (result : Except JoinError Joined)
  | map (id : UInt64) (json : Option Text)
  | games (games : List PublicGame)
  | gameList (id : UInt64) (games : List LobbyGame)
  | gameInfo (id : UInt64) (game : Option LobbyGame)

/-- The request a message belongs to. -/
def ToGameServer.id : ToGameServer → Option UInt64
  | .welcome | .refused _ => none
  | .create id _ _ _ | .createGame id _ _ _ _ | .join id _ _ _ _ | .listGames id
  | .gameInfo id _ | .mapGames id | .mapLevel id _ _ | .mapLive id _ _ => some id

/-- Whether only link version 2 has the message. -/
def ToGameServer.ofLobby : ToGameServer → Bool
  | .createGame _ _ _ _ _ | .listGames _ | .gameInfo _ _ => true
  | _ => false

/-- The request a message answers. -/
def FromGameServer.id : FromGameServer → Option UInt64
  | .hello _ _ | .games _ => none
  | .created id _ | .joined id _ | .map id _ | .gameList id _ | .gameInfo id _ => some id

/-- Equal tokens, compared in time independent of where they differ. -/
def tokenMatches (expected offered : Text) : Bool :=
  let a := expected.asBytes
  let b := offered.asBytes
  if a.isEmpty ∨ a.length ≠ b.length then false
  else (a.zip b).foldl (fun acc xy => acc ||| (xy.1 ^^^ xy.2)) 0 == 0

/-! ## Requests -/

/-- Which map data a request asks for. -/
inductive MapRequest where
  | games
  | level (game : UInt16) (level : Int)
  | live (game : UInt16) (level : Int)

/-- A call of `create`, `list_games`, `game_info`, `join` or `map`. -/
inductive Request where
  | create (name password : Text) (difficulty : UInt8) (settings : GameSettings)
  | listGames
  | gameInfo (name : Text)
  | join (name password : Text) (account : AccountId) (character : Text)
  | map (query : MapRequest)

/-- The message of a request; `lobby` is what it has found `has_lobby` to be. -/
def Request.make (lobby : Bool) (id : UInt64) : Request → ToGameServer
  | .create name password difficulty settings =>
    if lobby then .createGame id name password difficulty settings
    else .create id name password difficulty
  | .listGames => .listGames id
  | .gameInfo name => .gameInfo id name
  | .join name password account character => .join id name password account character
  | .map .games => .mapGames id
  | .map (.level game level) => .mapLevel id game level
  | .map (.live game level) => .mapLive id game level

/-- What the call returns; `none` is `LinkError::Down`, or no map. -/
inductive Outcome where
  | created (result : Option (Except CreateError UInt16))
  | gameList (games : Option (List LobbyGame))
  | gameInfo (game : Option (Option LobbyGame))
  | joined (result : Option (Except JoinError Joined))
  | map (json : Option Text)

/-- What a call makes of the reply to its request, if there is one. -/
def Request.finish (reply : Option FromGameServer) : Request → Outcome
  | .create _ _ _ _ =>
    .created (match reply with | some (.created _ result) => some result | _ => none)
  | .listGames => .gameList (match reply with | some (.gameList _ games) => some games | _ => none)
  | .gameInfo _ => .gameInfo (match reply with | some (.gameInfo _ game) => some game | _ => none)
  | .join _ _ _ _ =>
    .joined (match reply with | some (.joined _ result) => some result | _ => none)
  | .map _ => .map (match reply with | some (.map _ json) => json | _ => none)

/-- What a version-1 game server has of the lobby. -/
def Request.empty : Request → Outcome
  | .gameInfo _ => .gameInfo (some none)
  | _ => .gameList (some [])

inductive TaskPhase where
  | unasked
  | begun
  /-- A game server is linked. -/
  | known
  /-- The message is chosen. -/
  | decided (lobby : Bool)
  /-- The connection is chosen. -/
  | taken (lobby : Bool) (conn : Nat)
  | numbered (lobby : Bool) (conn : Nat) (id : UInt64)
  /-- The waiter is in `pending`, with what it has received. -/
  | waiting (lobby : Bool) (conn : Nat) (id : UInt64) (reply : Option FromGameServer)
  | sent (conn : Nat) (id : UInt64) (reply : Option FromGameServer)
  | removing (conn : Nat) (id : UInt64) (reply : Option FromGameServer)
  | done (ticket : Option (Nat × UInt64)) (outcome : Outcome)

structure Task where
  request : Request
  phase : TaskPhase

/-- The connection and the id of a request that has its id. -/
def TaskPhase.ticket : TaskPhase → Option (Nat × UInt64)
  | .unasked | .begun | .known | .decided _ | .taken _ _ => none
  | .numbered _ conn id | .waiting _ conn id _ | .sent conn id _ | .removing conn id _ =>
    some (conn, id)
  | .done ticket _ => ticket

/-! ## Connections -/

inductive Phase where
  | unaccepted
  | accepted
  | welcoming (version : UInt32)
  | welcomed (version : UInt32)
  | numbered (version : UInt32) (generation : UInt64)
  /-- Linked, with the message that was read and is to be acted on. -/
  | linked (version : UInt32) (generation : UInt64) (read : Option FromGameServer)
  /-- The loop has ended. -/
  | unlinking (version : UInt32) (generation : UInt64)
  | closed (said : Option UInt32) (generation : Option UInt64)

/-- The version a connection has said hello with, once that was accepted. -/
def Phase.said : Phase → Option UInt32
  | .unaccepted | .accepted => none
  | .welcoming version | .welcomed version | .numbered version _ | .linked version _ _
  | .unlinking version _ => some version
  | .closed said _ => said

def Phase.generation : Phase → Option UInt64
  | .unaccepted | .accepted | .welcoming _ | .welcomed _ => none
  | .numbered _ generation | .linked _ generation _ | .unlinking _ generation => some generation
  | .closed _ generation => generation

structure Connection where
  phase : Phase
  /-- What is to be written. -/
  queue : List ToGameServer
  /-- Whether the writer is there. -/
  writing : Bool

structure Current where
  generation : UInt64
  version : UInt32
  /-- Whose queue `tx` is. -/
  conn : Nat

/-- A message that a request put into a connection's queue. -/
structure Send where
  task : Nat
  conn : Nat
  message : ToGameServer

/-- A message of a connection that a waiter was given. -/
structure Answer where
  task : Nat
  conn : Nat
  message : FromGameServer

structure Link where
  token : Text
  current : Option Current
  generation : UInt64
  nextId : UInt64
  pending : Map UInt64 Nat
  games : List PublicGame
  connections : Nat → Connection
  tasks : Nat → Task
  sends : List Send
  answers : List Answer

def new (token : Text) : Link where
  token := token
  current := none
  generation := 0
  nextId := 0
  pending := ∅
  games := []
  connections _ := ⟨.unaccepted, [], false⟩
  tasks _ := ⟨.listGames, .unasked⟩
  sends := []
  answers := []

namespace Link

/-- `version`. -/
def spoken (s : Link) : Option UInt32 := s.current.map Current.version

/-- The games the linked game server last reported. -/
def publicGames (s : Link) : List PublicGame := if s.current.isNone then [] else s.games

def hasLobby (s : Link) : Bool := s.spoken.any fun v => lobbyVersion ≤ v

def setPhase (s : Link) (c : Nat) (phase : Phase) : Link :=
  { s with
    connections := Function.update s.connections c { s.connections c with phase } }

def setTask (s : Link) (r : Nat) (phase : TaskPhase) : Link :=
  { s with tasks := Function.update s.tasks r { s.tasks r with phase } }

/-! ### Steps of a connection -/

/-- The first message, if one is read in time. -/
def hello (s : Link) (c : Nat) (message : Option FromGameServer) : Link :=
  match (s.connections c).phase with
  | .accepted =>
    match message with
    | some (.hello token said) =>
      if tokenMatches s.token token ∧ minVersion ≤ said ∧ said ≤ version then
        s.setPhase c (.welcoming said)
      else s.setPhase c (.closed none none)
    | _ => s.setPhase c (.closed none none)
  | _ => s

/-- `Welcome` is written, or its writing fails. -/
def welcome (s : Link) (c : Nat) (written : Bool) : Link :=
  match (s.connections c).phase with
  | .welcoming said =>
    if written then s.setPhase c (.welcomed said) else s.setPhase c (.closed (some said) none)
  | _ => s

def number (s : Link) (c : Nat) : Link :=
  match (s.connections c).phase with
  | .welcomed said =>
    { s with generation := s.generation + 1 }.setPhase c (.numbered said (s.generation + 1))
  | _ => s

/-- `current` is replaced; the writer starts. -/
def install (s : Link) (c : Nat) : Link :=
  match (s.connections c).phase with
  | .numbered said generation =>
    { s with
      current := some ⟨generation, said, c⟩
      connections := Function.update s.connections c ⟨.linked said generation none, [], true⟩ }
  | _ => s

/-- A message is read, or the reading ends. -/
def read (s : Link) (c : Nat) (message : Option FromGameServer) : Link :=
  match (s.connections c).phase with
  | .linked said generation none =>
    match message with
    | some message => s.setPhase c (.linked said generation (some message))
    -- The writer, aborted, ends in a step of its own.
    | none => s.setPhase c (.unlinking said generation)
  | _ => s

/-- `waiter.send`: a request that has timed out has dropped its end. -/
def deliver (s : Link) (c r : Nat) (message : FromGameServer) : Link :=
  match (s.tasks r).phase with
  | .waiting lobby conn id none =>
    { s with answers := s.answers ++ [Answer.mk r c message] }.setTask r
      (.waiting lobby conn id (some message))
  | .sent conn id none =>
    { s with answers := s.answers ++ [Answer.mk r c message] }.setTask r
      (.sent conn id (some message))
  | _ => s

/-- What the loop does with a message. -/
def act (s : Link) (c : Nat) (message : FromGameServer) : Link :=
  match message with
  | .games games => { s with games }
  | message =>
    match message.id with
    | none => s
    | some id =>
      match s.pending.lookup id with
      | none => s
      | some r => { s with pending := s.pending.erase id }.deliver c r message

def handle (s : Link) (c : Nat) : Link :=
  match (s.connections c).phase with
  | .linked said generation (some message) =>
    (s.act c message).setPhase c (.linked said generation none)
  | _ => s

def unlink (s : Link) (c : Nat) : Link :=
  match (s.connections c).phase with
  | .unlinking said generation =>
    (if s.current.any fun cur => cur.generation = generation then
      { s with current := none, games := [] }
    else s).setPhase c (.closed (some said) (some generation))
  | _ => s

/-- The writer takes a message from the queue and writes it, or it ends. -/
def write (s : Link) (c : Nat) (written : Bool) : Link :=
  if (s.connections c).writing then
    { s with
      connections := Function.update s.connections c
        { s.connections c with queue := (s.connections c).queue.tail, writing := written } }
  else s

/-! ### Steps of a request -/

/-- `list_games` and `game_info` look for a game server first, and `join` and `map` for no
version. -/
def firstPhase : Request → TaskPhase
  | .join _ _ _ _ | .map _ => .decided false
  | _ => .begun

def ask (s : Link) (r : Nat) (request : Request) : Link :=
  match (s.tasks r).phase with
  | .unasked =>
    { s with tasks := Function.update s.tasks r ⟨request, firstPhase request⟩ }
  | _ => s

def proceed (s : Link) (r : Nat) : Link :=
  match (s.tasks r).phase with
  | .begun =>
    match (s.tasks r).request with
    | .create _ _ _ _ => s.setTask r (.decided s.hasLobby)
    | request =>
      if s.spoken.isNone then s.setTask r (.done none (request.finish none))
      else s.setTask r .known
  | .known =>
    if s.hasLobby then s.setTask r (.decided true)
    else s.setTask r (.done none (s.tasks r).request.empty)
  | .decided lobby =>
    match s.current with
    | none => s.setTask r (.done none ((s.tasks r).request.finish none))
    | some cur => s.setTask r (.taken lobby cur.conn)
  | .taken lobby conn =>
    { s with nextId := s.nextId + 1 }.setTask r (.numbered lobby conn s.nextId)
  | .numbered lobby conn id =>
    { s with pending := s.pending.insert id r }.setTask r (.waiting lobby conn id none)
  | .waiting lobby conn id reply =>
    let message := (s.tasks r).request.make lobby id
    if !(s.connections conn).writing then s.setTask r (.removing conn id none)
    else if (s.connections conn).queue.length < 64 then
      { s with
        connections := Function.update s.connections conn
          { s.connections conn with queue := (s.connections conn).queue ++ [message] }
        sends := s.sends ++ [Send.mk r conn message] }.setTask r (.sent conn id reply)
    else s
  | .sent conn id reply =>
    match reply with
    | some reply => s.setTask r (.removing conn id (some reply))
    | none =>
      -- The waiter is gone from `pending` without an answer.
      if s.pending.lookup id = some r then s else s.setTask r (.removing conn id none)
  | .removing conn id reply =>
    { s with pending := s.pending.erase id }.setTask r
      (.done (some (conn, id)) ((s.tasks r).request.finish reply))
  | .unasked | .done _ _ => s

def timeout (s : Link) (r : Nat) : Link :=
  match (s.tasks r).phase with
  | .waiting _ conn id _ | .sent conn id _ => s.setTask r (.removing conn id none)
  | _ => s

end Link

/-- A step of the connection `c` or of the request `r`. -/
inductive Event where
  | accept (c : Nat)
  | hello (c : Nat) (message : Option FromGameServer)
  | welcome (c : Nat) (written : Bool)
  | number (c : Nat)
  | install (c : Nat)
  | read (c : Nat) (message : Option FromGameServer)
  | handle (c : Nat)
  | unlink (c : Nat)
  | write (c : Nat) (written : Bool)
  | ask (r : Nat) (request : Request)
  | proceed (r : Nat)
  | timeout (r : Nat)

def step (s : Link) : Event → Link
  | .accept c =>
    match (s.connections c).phase with
    | .unaccepted => s.setPhase c .accepted
    | _ => s
  | .hello c message => s.hello c message
  | .welcome c written => s.welcome c written
  | .number c => s.number c
  | .install c => s.install c
  | .read c message => s.read c message
  | .handle c => s.handle c
  | .unlink c => s.unlink c
  | .write c written => s.write c written
  | .ask r request => s.ask r request
  | .proceed r => s.proceed r
  | .timeout r => s.timeout r

end CommandCenter.Daemon.GameServerLink
