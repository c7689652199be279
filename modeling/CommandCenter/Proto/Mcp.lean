import CommandCenter.Proto.Reader

/-!
# MCP

`crates/bnetcc-proto/src/mcp.rs`: the Diablo II realm protocol. A frame has the length of the
whole first, then the id, and no magic byte.

* `Mcp.decodeFrame_header`: behind a header that is there the frame is taken.
-/

namespace CommandCenter.Proto.Mcp

open Rust Library

def headerLen : Nat := 3

/-- Total wire size including the header. -/
def wireLen (frame : Frame) : Nat := headerLen + frame.body.length

/-- Attempt to decode one frame from `src`. -/
def decodeFrame (src : RecvBuf) (maxFrame : Nat) : Decoded :=
  match src.asSlice with
  | lo :: hi :: id :: _ => takeFrame headerLen src maxFrame id (fromLeBytes lo hi).toNat
  | _ => (.ok none, src)

def header (frame : Frame) : List UInt8 := toLeBytes (.ofNat (wireLen frame)) ++ [frame.id]

/-- Append a frame's wire bytes to `dst`. -/
def encodeFrame (frame : Frame) (dst : List UInt8) : Except ProtoError Unit × List UInt8 :=
  putFrame (wireLen frame) (header frame) frame.body dst

/-- The bytes of a frame on the wire. -/
def wire (frame : Frame) : List UInt8 := header frame ++ frame.body

theorem decodeFrame_header {src : RecvBuf} {maxFrame : Nat} {frame : Frame} {rest : List UInt8}
    (hfits : wireLen frame ≤ u16Max) (hsrc : src.asSlice = header frame ++ rest) :
    decodeFrame src maxFrame = takeFrame headerLen src maxFrame frame.id (wireLen frame) := by
  unfold decodeFrame
  rw [hsrc]
  change takeFrame _ _ _ _ (fromLeBytes _ _).toNat = _
  rw [read_len hfits]

/-! ## Messages -/

namespace Msg

def startup : UInt8 := 0x01
def charCreate : UInt8 := 0x02
def createGame : UInt8 := 0x03
def joinGame : UInt8 := 0x04
def gameList : UInt8 := 0x05
def gameInfo : UInt8 := 0x06
def charLogon : UInt8 := 0x07
def charDelete : UInt8 := 0x0A
def requestLadderData : UInt8 := 0x11
def motd : UInt8 := 0x12
def cancelGameCreate : UInt8 := 0x13
def charRank : UInt8 := 0x16
def charList : UInt8 := 0x17
def charUpgrade : UInt8 := 0x18
def charList2 : UInt8 := 0x19

end Msg

namespace StartupResult

def ok : UInt32 := 0x00
def unavailable : UInt32 := 0x0A

end StartupResult

namespace CharCreateResult

def ok : UInt32 := 0x00
def nameTaken : UInt32 := 0x14
def invalid : UInt32 := 0x15

end CharCreateResult

namespace CharLogonResult

def ok : UInt32 := 0x00
def notFound : UInt32 := 0x46

end CharLogonResult

namespace CharDeleteResult

def ok : UInt32 := 0x00
def notFound : UInt32 := 0x49

end CharDeleteResult

namespace CreateGameResult

def ok : UInt32 := 0x00
def invalidName : UInt32 := 0x1E
def nameTaken : UInt32 := 0x1F
def serversDown : UInt32 := 0x20
def deadHardcore : UInt32 := 0x6E

end CreateGameResult

namespace JoinResult

def ok : UInt32 := 0x00
def badPassword : UInt32 := 0x29
def noSuchGame : UInt32 := 0x2A
def full : UInt32 := 0x2B
def levelRequirement : UInt32 := 0x2C
def deadHardcore : UInt32 := 0x6E
def notHardcore : UInt32 := 0x71
def noNightmare : UInt32 := 0x73
def noHell : UInt32 := 0x74
def notExpansion : UInt32 := 0x78
def notClassic : UInt32 := 0x79
def notLadder : UInt32 := 0x7D

end JoinResult

/-! ## The game lobby -/

namespace GameStatus

def none : UInt32 := 0xFFFFFFFF

def «end» : UInt32 := 0xFFFFFFFE

end GameStatus

/-- A game's flags, as in a listed game's status. -/
def gameFlags (difficulty : UInt8) (hardcore expansion ladder : Bool) : UInt32 :=
  let flags := (0x04 : UInt32) ||| (min difficulty 2).toUInt32 <<< 12
  let flags := if hardcore then flags ||| 0x800 else flags
  let flags := if expansion then flags ||| 0x100000 else flags
  if ladder then flags ||| 0x200000 else flags

/-- Longest game name the client keeps. -/
def gameNameMax : Nat := 15

/-- Longest game description the client keeps. -/
def gameDescriptionMax : Nat := 31

/-- Character names go into 16-byte slots. -/
def characterNameMax : Nat := 15

/-- `MCP_GAMEINFO` holds sixteen characters. -/
def gameinfoCharacters : Nat := 16

/-- The bytes before the first NUL, at most `max` of them. -/
def clipped (s : List UInt8) (max : Nat) : List UInt8 := (s.takeWhile (· != 0)).take max

/-- One game of an `MCP_GAMELIST` reply. -/
def gamelistEntry (requestId : UInt16) (token : UInt32) (players : UInt8) (status : UInt32)
    (name description : List UInt8) : List UInt8 :=
  Writer.u16 requestId ++ Writer.u32 token ++ [players] ++ Writer.u32 status ++
    Writer.cstr (clipped name gameNameMax) ++
    Writer.cstr (clipped description gameDescriptionMax)

/-- The packet that ends an `MCP_GAMELIST` reply. -/
def gamelistEnd (requestId : UInt16) : List UInt8 :=
  Writer.u16 requestId ++ Writer.u32 0 ++ [0] ++ Writer.u32 GameStatus.end

/-- One character in an `MCP_GAMEINFO` reply. -/
structure GameInfoCharacter where
  /-- `class` in the source. -/
  heroClass : UInt8
  level : UInt8
  name : List UInt8

/-- What an `MCP_GAMEINFO` reply describes. -/
structure GameInfo where
  status : UInt32
  uptimeSecs : UInt32
  creatorLevel : UInt8
  levelDifference : UInt8
  maxPlayers : UInt8
  description : List UInt8
  characters : List GameInfoCharacter

/-- An `MCP_GAMEINFO` reply. -/
def gameinfoReply (requestId : UInt16) (info : GameInfo) : List UInt8 :=
  let characters := info.characters.take gameinfoCharacters
  let slots (field : GameInfoCharacter → UInt8) : List UInt8 :=
    characters.map field ++ List.replicate (gameinfoCharacters - characters.length) 0
  Writer.u16 requestId ++ Writer.u32 info.status ++ Writer.u32 info.uptimeSecs ++
    [info.creatorLevel, info.levelDifference, info.maxPlayers, .ofNat characters.length] ++
    slots GameInfoCharacter.heroClass ++ slots GameInfoCharacter.level ++
    Writer.cstr (clipped info.description gameDescriptionMax) ++
    characters.flatMap fun c => Writer.cstr (clipped c.name characterNameMax)

/-- The `MCP_GAMEINFO` reply for a game that is gone. -/
def gameinfoNone (requestId : UInt16) : List UInt8 :=
  Writer.u16 requestId ++ Writer.u32 GameStatus.none ++ Writer.u32 0 ++ [0, 0xFF, 0, 0]

end CommandCenter.Proto.Mcp
