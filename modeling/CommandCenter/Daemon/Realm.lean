import CommandCenter.Daemon.Ladder
import CommandCenter.Library.Requests
import CommandCenter.Proto.Product

/-!
# A realm connection

`struct Mcp` of `crates/bnetccd/src/realm.rs`. A handler is a program over the connection's ticket
and character that makes requests of the node, the storage actor, the clock and the game server,
one at a time; whatever other connections do happens between two requests. Logs are left out.
-/

namespace CommandCenter.Daemon

open Rust Proto D2 Library
open CommandCenter.Core (AccountId)
open Storage (Account Character)

/-- What `SID_LOGONREALMEX` hands a client to present on its realm connection. -/
structure RealmTicket where
  cookie : UInt32
  account : Account
  product : FourCc
  deriving DecidableEq

/-- Why a character could not be created. -/
inductive CreateCharacterError where
  | nameTaken
  | backend (message : Text)
  deriving DecidableEq

/-- The configuration that a realm connection reads. -/
structure RealmConfig where
  motd : Text
  maxCharacters : Nat
  /-- Whether a game server is configured. -/
  gameServer : Bool
  /-- `str::to_lowercase`. -/
  toLowercase : Text → Text

inductive RealmRequest where
  | realmTicket (id : UInt64) (cookie : UInt32)
  | nowSecs
  | clientFacingIpv4
  | characters (account : AccountId)
  | allCharacters
  | characterByName (name : Text)
  | createCharacter (character : Character)
  | updateCharacter (character : Character)
  | deleteCharacter (account : AccountId) (name : Text)
  | createGame (name password : Text) (difficulty : UInt8) (settings : GameSettings)
  | listGames
  | gameInfo (name : Text)
  | joinGame (name password : Text) (account : AccountId) (character : Text)

abbrev RealmReply : RealmRequest → Type
  | .realmTicket _ _ => Option RealmTicket
  | .nowSecs => Nat
  | .clientFacingIpv4 => Option (Bytes 4)
  | .characters _ => Except Text (List Character)
  | .allCharacters => List Character
  | .characterByName _ => Option Character
  | .createCharacter _ => Except CreateCharacterError Unit
  | .updateCharacter _ => Except Text Bool
  | .deleteCharacter _ _ => Except Text Bool
  | .createGame _ _ _ _ => Except LinkError (Except CreateError UInt16)
  | .listGames => Except LinkError (List LobbyGame)
  | .gameInfo _ => Except LinkError (Option LobbyGame)
  | .joinGame _ _ _ _ => Except LinkError (Except JoinError Joined)

abbrev RealmProgram := Asking RealmRequest RealmReply

def realmAsk (q : RealmRequest) : RealmProgram (RealmReply q) := .request q

structure Mcp where
  ticket : Option RealmTicket
  /-- The character chosen with `MCP_CHARLOGON`. -/
  selected : Option Text

namespace Mcp

/-- Longest string read from a realm request. -/
def strMax : Nat := 64

/-- Result for a failed `MCP_CHARUPGRADE`. -/
def upgradeFailed : UInt32 := 0x7A

/-- The most games one `MCP_GAMELIST` reply lists. -/
def gamelistMax : Nat := 1000

/-- A level difference of this or more means none. -/
def noLevelDifference : UInt8 := 100

def accountId (m : Mcp) : AccountId :=
  match m.ticket with
  | some t => t.account.id
  | none => 0

/-- Whether this connection's client can use Lord of Destruction characters. -/
def expansionClient (m : Mcp) : Bool := m.ticket.any fun t => t.product = Product.d2xp

def text : Reader.Position Text := do
  return Text.fromUtf8Lossy (← Reader.getD (Reader.cstr strMax) [])

def result (id : UInt8) (code : UInt32) : Frame := ⟨id, Writer.u32 code⟩

/-! ## Characters -/

/-- The cookie and the ticket id of an `MCP_STARTUP`. -/
def readStartup : Reader (UInt32 × UInt64) := do
  let cookie ← Reader.u32
  let _status ← Reader.u32
  let lo ← Reader.u32
  let hi ← Reader.u32
  return (cookie, lo.toUInt64 ||| hi.toUInt64 <<< 32)

/-- `MCP_STARTUP`. -/
def startup (m : Mcp) (frame : Frame) : RealmProgram (List Frame × Option Mcp) := do
  let ticket ← match Reader.read readStartup frame with
    | .ok (cookie, id) => realmAsk (.realmTicket id cookie)
    | .error _ => pure none
  match ticket with
  | some t =>
    return ([result Mcp.Msg.startup Mcp.StartupResult.ok], some { m with ticket := some t })
  | none => return ([result Mcp.Msg.startup Mcp.StartupResult.unavailable], none)

/-- Whether the client can use a character. -/
def canUse (m : Mcp) (c : Character) : Bool :=
  m.expansionClient || !hasBit c.status Status.expansion

/-- The characters this connection may see. -/
def visibleCharacters (m : Mcp) : RealmProgram (List Character) := do
  match ← realmAsk (.characters m.accountId) with
  | .ok chars => return chars.filter m.canUse
  | .error _ => return []

/-- `MCP_CHARLIST2`, or the older `MCP_CHARLIST` without an expiry. -/
def charList (m : Mcp) (frame : Frame) (withExpiry : Bool) : RealmProgram Frame := do
  let requested := Reader.scan (Reader.getD Reader.u32 8) frame
  let chars ← m.visibleCharacters
  let total := UInt32.ofNat chars.length
  let returned := min chars.length requested.toNat
  let entry (c : Character) : List UInt8 :=
    (if withExpiry then Writer.u32 0xFFFFFFFF else []) ++ Writer.cstr c.name.asBytes ++
      Writer.cstr ((portrait c).charlistBytes total)
  return ⟨frame.id, Writer.u16 (.ofNat (min requested.toNat 65535)) ++ Writer.u32 total ++
    Writer.u16 (.ofNat returned) ++ (chars.take returned).flatMap entry⟩

/-- The class, status and name of an `MCP_CHARCREATE`. -/
def readCharCreate : Reader (UInt32 × UInt16 × Text) := do
  let heroClass ← Reader.u32
  let status ← Reader.u16
  let name ← Reader.cstr strMax
  return (heroClass, status, Text.fromUtf8Lossy name)

/-- Whether a character of this class may be made. -/
def classOk (heroClass : UInt32) (expansion : Bool) : Bool :=
  decide (heroClass.toNat < 256) && HeroClass.isValid heroClass.toUInt8 &&
    (expansion || !HeroClass.expansionOnly heroClass.toUInt8)

/-- `MCP_CHARCREATE`. A character made is the one the connection plays. -/
def charCreate (cfg : RealmConfig) (m : Mcp) (frame : Frame) : RealmProgram (Frame × Mcp) := do
  let refuse (code : UInt32) : Frame × Mcp := (result Mcp.Msg.charCreate code, m)
  match Reader.read readCharCreate frame with
  | .error _ => return refuse Mcp.CharCreateResult.invalid
  | .ok (heroClass, statusWord, name) =>
    let status := statusWord.toUInt8 &&& Status.creatable
    let expansion := hasBit status Status.expansion
    if !validCharacterName name || !classOk heroClass expansion ||
        (expansion && !m.expansionClient) then
      return refuse Mcp.CharCreateResult.invalid
    else
      -- a count that fails is read as none
      let owned ← realmAsk (.characters m.accountId)
      if cfg.maxCharacters ≤ (owned.toOption.map List.length).getD 0 then
        return refuse Mcp.CharCreateResult.invalid
      else
        let now ← realmAsk .nowSecs
        let made ← realmAsk (.createCharacter {
          account := m.accountId
          name
          heroClass := heroClass.toUInt8
          status
          level := 1
          progression := 0
          createdAt := now
          lastPlayed := now
          save := none })
        match made with
        | .ok () =>
          let reply := result Mcp.Msg.charCreate Mcp.CharCreateResult.ok
          return (reply, { m with selected := some name })
        | .error .nameTaken => return refuse Mcp.CharCreateResult.nameTaken
        | .error (.backend _) => return refuse Mcp.CharCreateResult.invalid

/-- One of this account's characters that this client can use, by name. -/
def ownCharacter (m : Mcp) (name : Text) : RealmProgram (Option Character) := do
  let found ← realmAsk (.characterByName name)
  return found.filter fun c => c.account == m.accountId && m.canUse c

/-- The character this connection plays, if it has chosen or made one. -/
def playing (m : Mcp) : RealmProgram (Option Character) :=
  match m.selected with
  | some selected => m.ownCharacter selected
  | none => pure none

/-- Whether the character this connection plays is a hardcore one that has died. -/
def selectedIsDead (m : Mcp) : RealmProgram Bool :=
  match m.selected with
  | some selected => do
    let own ← m.ownCharacter selected
    return own.any isDeadHardcore
  | none => pure false

/-- `MCP_REQUESTLADDERDATA`. -/
def ladderData (m : Mcp) (frame : Frame) : RealmProgram Frame := do
  let (ladder, start) := Reader.scan (do
    let ladder ← Reader.getD Reader.u8 0
    let start ← Reader.getD Reader.u16 0
    return (ladder, start)) frame
  let characters ← realmAsk .allCharacters
  return ⟨Mcp.Msg.requestLadderData, ladderReply characters ladder start m.accountId⟩

/-- `MCP_CHARLOGON`. -/
def charLogon (m : Mcp) (frame : Frame) : RealmProgram (Frame × Mcp) := do
  let name := Reader.scan text frame
  match ← m.ownCharacter name with
  | some c =>
    let now ← realmAsk .nowSecs
    let _ ← realmAsk (.updateCharacter { c with lastPlayed := now })
    return (result Mcp.Msg.charLogon Mcp.CharLogonResult.ok, { m with selected := some c.name })
  | none => return (result Mcp.Msg.charLogon Mcp.CharLogonResult.notFound, m)

/-- `MCP_CHARDELETE`. -/
def charDelete (m : Mcp) (frame : Frame) : RealmProgram (Frame × Mcp) := do
  let (requestId, name) := Reader.scan (do
    let requestId ← Reader.getD Reader.u16 0
    return (requestId, ← text)) frame
  let deleted ← realmAsk (.deleteCharacter m.accountId name)
  let reply (code : UInt32) : Frame :=
    ⟨Mcp.Msg.charDelete, Writer.u16 requestId ++ Writer.u32 code⟩
  match deleted with
  | .ok true =>
    let selected := if m.selected.any fun s => s.eqIgnoreAsciiCase name then none else m.selected
    return (reply Mcp.CharDeleteResult.ok, { m with selected })
  | .ok false | .error _ => return (reply Mcp.CharDeleteResult.notFound, m)

/-- `MCP_CHARUPGRADE`. Already being expansion is success. -/
def charUpgrade (m : Mcp) (frame : Frame) : RealmProgram Frame := do
  let name := Reader.scan text frame
  let reply (code : UInt32) : Frame := result Mcp.Msg.charUpgrade code
  match ← realmAsk (.characterByName name) with
  | some c =>
    if c.account = m.accountId ∧ m.expansionClient then
      if hasBit c.status Status.expansion then return reply 0
      else
        match ← realmAsk (.updateCharacter { c with status := c.status ||| Status.expansion }) with
        | .ok true => return reply 0
        | .ok false | .error _ => return reply upgradeFailed
    else return reply upgradeFailed
  | none => return reply Mcp.CharLogonResult.notFound

/-! ## Games -/

/-- `MCP_GAMELIST`: one packet for each game, then the end marker. -/
def gameList (cfg : RealmConfig) (m : Mcp) (frame : Frame) : RealmProgram (List Frame) := do
  let (requestId, filter) := Reader.scan (do
    let requestId ← Reader.getD Reader.u16 0
    let _flags ← Reader.getD Reader.u32 0
    return (requestId, ← text)) frame
  let character ← m.playing
  let games ← match cfg.gameServer, character with
    | true, some c => do
      let games ← realmAsk .listGames
      pure ((games.toOption.getD []).filter fun g => listable cfg.toLowercase c g filter)
    | true, none | false, _ => pure []
  return (games.take gamelistMax).map (fun g => ⟨Mcp.Msg.gameList, gamelistBody requestId g⟩) ++
    [⟨Mcp.Msg.gameList, Mcp.gamelistEnd requestId⟩]

/-- `MCP_GAMEINFO`. -/
def gameInfo (cfg : RealmConfig) (frame : Frame) : RealmProgram Frame := do
  let (requestId, name) := Reader.scan (do
    let requestId ← Reader.getD Reader.u16 0
    return (requestId, ← text)) frame
  let game ← if cfg.gameServer then do
      let game ← realmAsk (.gameInfo name)
      pure (game.toOption.getD none)
    else pure none
  return ⟨Mcp.Msg.gameInfo, match game with
    | some g => gameinfoBody requestId g
    | none => Mcp.gameinfoNone requestId⟩

/-- The fields of an `MCP_CREATEGAME`. -/
structure CreateGame where
  requestId : UInt16
  flags : UInt32
  levelDifference : UInt8
  maxPlayers : UInt8
  name : Text
  password : Text
  description : Text

/-- The flags, the level difference, the player limit and the name are read together. -/
def readCreateGame : Reader.Position CreateGame := do
  let requestId ← Reader.getD Reader.u16 0
  let asked ← (do
    let flags ← Reader.attempt Reader.u32
    let _ ← Reader.attempt Reader.u8
    let levelDifference ← Reader.attempt Reader.u8
    let maxPlayers ← Reader.attempt Reader.u8
    let name ← Reader.attempt (Reader.cstr strMax)
    return (flags, levelDifference, maxPlayers, Text.fromUtf8Lossy name) :
      OptionT Reader.Position (UInt32 × UInt8 × UInt8 × Text)).run
  let (flags, levelDifference, maxPlayers, name) := asked.getD (0, 0xFF, 8, [])
  let password ← text
  let description ← text
  return { requestId, flags, levelDifference, maxPlayers, name, password, description }

def CreateGame.difficulty (g : CreateGame) : UInt8 := ((g.flags >>> 12) &&& 3).toUInt8

/-- The game is of the creating character's kind, and the lobby shows its level. -/
def gameSettings (m : Mcp) (g : CreateGame) (creator : Option Character) : GameSettings where
  description := clip g.description Mcp.gameDescriptionMax
  maxPlayers := if 1 ≤ g.maxPlayers ∧ g.maxPlayers ≤ 8 then g.maxPlayers else 8
  levelDifference := if g.levelDifference < noLevelDifference then some g.levelDifference else none
  creatorLevel := match creator with
    | some c => max c.level 1
    | none => 1
  expansion := match creator with
    | some c => hasBit c.status Status.expansion
    | none => m.expansionClient
  hardcore := creator.any fun c => hasBit c.status Status.hardcore
  ladder := creator.any fun c => hasBit c.status Status.ladder

/-- `MCP_CREATEGAME`. -/
def createGame (cfg : RealmConfig) (m : Mcp) (frame : Frame) : RealmProgram Frame := do
  let g := Reader.scan readCreateGame frame
  let creator ← m.playing
  let reply (token : UInt16) (code : UInt32) : Frame :=
    ⟨Mcp.Msg.createGame, Writer.u16 g.requestId ++ Writer.u16 token ++ Writer.u16 0 ++
      Writer.u32 code⟩
  if g.name.isEmpty || 15 < g.name.len then return reply 0 Mcp.CreateGameResult.invalidName
  else if ← m.selectedIsDead then return reply 0 Mcp.CreateGameResult.deadHardcore
  else if cfg.gameServer then
    match ← realmAsk (.createGame g.name g.password g.difficulty (m.gameSettings g creator)) with
    | .ok (.ok id) => return reply id Mcp.CreateGameResult.ok
    | .ok (.error .nameTaken) => return reply 0 Mcp.CreateGameResult.nameTaken
    | .ok (.error .full) => return reply 0 Mcp.CreateGameResult.serversDown
    | .error .down => return reply 0 Mcp.CreateGameResult.serversDown
  else return reply 0 Mcp.CreateGameResult.serversDown

/-- The fields of an `MCP_JOINGAME`. -/
structure JoinGame where
  requestId : UInt16
  name : Text
  password : Text

def readJoinGame : Reader.Position JoinGame := do
  let requestId ← Reader.getD Reader.u16 0
  let name ← text
  let password ← text
  return { requestId, name, password }

/-- How a failed join is told to the client. -/
def joinFailure : JoinError → UInt32
  | .noSuchGame | .noSuchCharacter => Mcp.JoinResult.noSuchGame
  | .badPassword => Mcp.JoinResult.badPassword
  | .full => Mcp.JoinResult.full

/-- `MCP_JOINGAME`. -/
def joinGame (cfg : RealmConfig) (m : Mcp) (frame : Frame) : RealmProgram Frame := do
  let j := Reader.scan readJoinGame frame
  let ip ← realmAsk .clientFacingIpv4
  let character ← m.playing
  -- what the game list would not have offered this character
  let refusal ← match cfg.gameServer, character with
    | true, some c =>
      if isDeadHardcore c then pure none
      else do
        let game ← realmAsk (.gameInfo j.name)
        pure ((game.toOption.getD none).bind (joinRefusal c))
    | true, none | false, _ => pure none
  let refuse (code : UInt32) : Frame :=
    ⟨Mcp.Msg.joinGame, Writer.u16 j.requestId ++ Writer.u16 0 ++ Writer.u16 0 ++ Writer.u32 0 ++
      Writer.u32 0 ++ Writer.u32 code⟩
  match character with
  | none => return refuse Mcp.JoinResult.noSuchGame
  | some c =>
    if isDeadHardcore c then return refuse Mcp.JoinResult.deadHardcore
    else
      match refusal, cfg.gameServer, ip with
      | some code, _, _ => return refuse code
      | none, true, some ip =>
        match ← realmAsk (.joinGame j.name j.password c.account c.name) with
        | .ok (.ok joined) =>
          return ⟨Mcp.Msg.joinGame, Writer.u16 j.requestId ++ Writer.u16 joined.token ++
            Writer.u16 0 ++ ip.toList ++ Writer.u32 joined.hash ++ Writer.u32 Mcp.JoinResult.ok⟩
        | .ok (.error e) => return refuse (joinFailure e)
        | .error .down => return refuse Mcp.JoinResult.noSuchGame
      | none, true, none | none, false, _ => return refuse Mcp.JoinResult.noSuchGame

/-! ## Requests -/

/-- Handle one request: the replies, and the connection if it is kept. -/
def handle (cfg : RealmConfig) (m : Mcp) (frame : Frame) :
    RealmProgram (List Frame × Option Mcp) :=
  let one (reply : RealmProgram Frame) : RealmProgram (List Frame × Option Mcp) := do
    return ([← reply], some m)
  let moving (reply : RealmProgram (Frame × Mcp)) : RealmProgram (List Frame × Option Mcp) := do
    let (reply, m) ← reply
    return ([reply], some m)
  if frame.id = Mcp.Msg.startup then m.startup frame
  else if frame.id = Mcp.Msg.charList2 then one (m.charList frame true)
  else if frame.id = Mcp.Msg.charList then one (m.charList frame false)
  else if frame.id = Mcp.Msg.charCreate then moving (m.charCreate cfg frame)
  else if frame.id = Mcp.Msg.charLogon then moving (m.charLogon frame)
  else if frame.id = Mcp.Msg.charDelete then moving (m.charDelete frame)
  else if frame.id = Mcp.Msg.charUpgrade then one (m.charUpgrade frame)
  else if frame.id = Mcp.Msg.motd then
    one (pure ⟨Mcp.Msg.motd, [0] ++ Writer.cstr cfg.motd.asBytes⟩)
  else if frame.id = Mcp.Msg.gameList then do return (← m.gameList cfg frame, some m)
  else if frame.id = Mcp.Msg.gameInfo then one (gameInfo cfg frame)
  else if frame.id = Mcp.Msg.createGame then one (m.createGame cfg frame)
  else if frame.id = Mcp.Msg.joinGame then one (m.joinGame cfg frame)
  else if frame.id = Mcp.Msg.requestLadderData then one (m.ladderData frame)
  else pure ([], some m)

/-- Nothing but the handshake before the handshake. -/
def accepts (m : Mcp) (frame : Frame) : Bool :=
  m.ticket.isSome || frame.id = Mcp.Msg.startup

end Mcp

end CommandCenter.Daemon
