import CommandCenter.Daemon.Bncs
import CommandCenter.Proto.Chat
import CommandCenter.Rust.Utf8

/-!
# Hosting, joining and reporting games

The game packets of `crates/bnetccd/src/session.rs`: `SID_STARTADVEX3`, `SID_STOPADV`,
`SID_LEAVEGAME`, `SID_NOTIFYJOIN`, `SID_NETGAMEPORT` and `SID_GAMERESULT`.
-/

namespace CommandCenter.Daemon

open Rust CommandCenter.Core Proto Library
open Storage (Account AttrKey AttrMap)

/-- Normal-game wins a player needs before playing on the ladder. -/
def ladderMinWins : UInt32 := 10

/-- A new ladder player's rating. -/
def startRating : UInt32 := 1000

/-- The attribute key of a product's record in a league. -/
def recordKey (product : Text) (league : League) (leaf : Text) : AttrKey :=
  .new ("Record\\".toList ++ product ++ '\\' :: league.index ++ '\\' :: leaf)

/-- One number of an account that any peer may read. -/
def readNumber (account : Text) (key : AttrKey) : Program (Option UInt32) := do
  let attrs : AttrMap ← ask (.readReadableAttrs account [key])
  return (attrs.lookup key).bind parseU32

namespace Bncs

/-- An account's normal-game wins for this session's product. -/
def normalWins (s : Bncs) (account : Text) : Program UInt32 :=
  match s.product with
  | none => return 0
  | some product => do
    return (← readNumber account (recordKey product.toText .normal "wins".toList)).getD 0

/-! ## Hosting and joining -/

/-- The fields of `SID_STARTADVEX3`. -/
structure Advertisement where
  state : UInt32
  gameType : UInt16
  parameter : UInt16
  ladder : UInt32
  name : List UInt8
  password : List UInt8
  statstring : List UInt8

def readAdvertisement : Reader Advertisement := do
  let state ← Reader.u32
  let _uptime ← Reader.u32
  let gameType ← Reader.u16
  let parameter ← Reader.u16
  let _unknown ← Reader.u32
  let ladder ← Reader.u32
  let name ← Reader.cstr channelNameMax
  let password ← Reader.cstr channelNameMax
  let statstring ← Reader.cstr 512
  return { state, gameType, parameter, ladder, name, password, statstring }

/-- `IpAddr::V4`, or else the unspecified address. -/
def hostIp : IpAddr → UInt32
  | .v4 addr => addr
  | .v6 _ => 0

def advertiseReply (status : UInt32) : Frame := ⟨Sid.startAdvEx3, Writer.u32 status⟩

/-- Offer the game, and take its seat unless the session hosts one already. -/
def host (s : Bncs) (account : Account) (ad : Advertisement) : Handling := do
  let created : Nat ← ask .instant
  let free : Bool ← ask (.advertiseGame
    { name := ad.name, password := ad.password, statstring := ad.statstring,
      gameType := ad.gameType, parameter := ad.parameter, state := ad.state, product := s.product,
      port := s.gamePort, hostIp := hostIp s.peer, host := account.id, created })
  if free then
    if s.hostingGame then s.send (advertiseReply AdvertiseStatus.ok)
    else
      let since : Nat ← ask .instant
      let product := s.product.elim "unknown".toList FourCc.toText
      let _ : Unit ← ask (.recordHostedGame product)
      { s with hostingGame := true, gameSeat := some ⟨ad.name, since⟩ }.send
        (advertiseReply AdvertiseStatus.ok)
  else s.send (advertiseReply AdvertiseStatus.nameTaken)

/-- `SID_STARTADVEX3`. -/
def advertise (cfg : ServerConfig) (s : Bncs) (frame : Frame) : Handling :=
  if cfg.gameHosting then
    match s.account, readAdvertisement.read frame with
    | none, _ => return (.close, s)
    | some _, .error _ => return (.close, s)
    | some account, .ok ad => do
      if ad.ladder ≠ 0 then
        let wins ← s.normalWins account.name
        if wins < ladderMinWins then
          s.send (advertiseReply AdvertiseStatus.typeUnavailable)
        else s.host account ad
      else s.host account ad
  else s.send (advertiseReply AdvertiseStatus.typeUnavailable)

/-- Take the games of the session's account off the list. -/
def withdrawGame (s : Bncs) : Program Unit :=
  match s.account with
  | some account => ask (.withdrawGame account.id)
  | none => return ()

/-- The seat of a host whose game starts counts from now. -/
def startGame (s : Bncs) (starts : Bool) : Program Bncs :=
  match s.gameSeat with
  | none => return s
  | some seat =>
    if starts && s.hostingGame then do
      let since : Nat ← ask .instant
      let _ : Unit ← ask (.markGameStarted s.product seat.name)
      return { s with gameSeat := some { seat with since } }
    else return s

/-- `SID_STOPADV`, with which a host's game starts, and `SID_LEAVEGAME`. -/
def stopAdvertising (s : Bncs) (starts : Bool) : Handling := do
  s.withdrawGame
  let s ← s.startGame starts
  return (.continue, { s with hostingGame := false })

/-- The game that `SID_NOTIFYJOIN` names. -/
def readJoin : Reader (List UInt8) := do
  let _product ← Reader.u32
  let _version ← Reader.u32
  Reader.cstr channelNameMax

/-- `SID_NOTIFYJOIN`. -/
def notifyJoin (s : Bncs) (frame : Frame) : Handling :=
  match readJoin.read frame with
  | .error _ => return (.continue, s)
  | .ok name => do
    let since : Nat ← ask .instant
    return (.continue, { s with gameSeat := some ⟨name, since⟩ })

/-- `SID_NETGAMEPORT`. -/
def netGamePort (s : Bncs) (frame : Frame) : Handling :=
  match Reader.u16.read frame with
  | .error _ => return (.continue, s)
  | .ok port => return (.continue, { s with gamePort := port })

/-! ## Results -/

/-- The fields of `SID_GAMERESULT` that are read. -/
structure ResultReport where
  gameType : UInt32
  results : List UInt32
  names : List Text

/-- `n` values one after the other. -/
def readMany {α : Type} (reader : Reader α) : Nat → Reader (List α)
  | 0 => return []
  | n + 1 => do
    let value ← reader
    return value :: (← readMany reader n)

def readResults : Reader ResultReport := do
  let gameType ← Reader.u32
  let count := min (← Reader.u32).toNat 16
  let results ← readMany Reader.u32 count
  let names ← readMany (do return Text.fromUtf8Lossy (← Reader.cstr 64)) count
  return { gameType, results, names }

def ResultReport.slot (report : ResultReport) (name : Text) : Option Nat :=
  report.names.findIdx? (·.eqIgnoreAsciiCase name)

def ResultReport.outcome (report : ResultReport) (name : Text) : Option GameOutcome :=
  ((report.slot name).bind fun i => report.results[i]?).bind GameOutcome.fromCode

/-- The ratings of the players in the slots from `i` on, but the reporter's and the empty ones. -/
def opponentRatings (key : AttrKey) (own : Option Nat) (results : List UInt32) :
    Nat → List Text → Program (List UInt32)
  | _, [] => return []
  | i, name :: names => do
    if own = some i ∨ name = [] ∨ results.getD i 0 = 0 then
      opponentRatings key own results (i + 1) names
    else
      let rating ← readNumber name key
      return rating.getD startRating :: (← opponentRatings key own results (i + 1) names)

/-- The average of the ratings, rounded down. -/
def averageRating (ratings : List UInt32) : UInt32 :=
  if ratings = [] then startRating
  else .ofNat ((ratings.map UInt32.toNat).sum / ratings.length)

/-- Record a ladder or an Iron Man game, which needs enough normal wins. -/
def recordLadder (s : Bncs) (account : Account) (product : Text) (report : ResultReport)
    (outcome : GameOutcome) : Handling := do
  let league := League.fromCode report.gameType
  let wins ← s.normalWins account.name
  if wins < ladderMinWins then return (.continue, s)
  else
    let key := recordKey product league "rating".toList
    let ratings ← opponentRatings key (report.slot account.name) report.results 0 report.names
    let _ : Except Text UInt32 ← ask (.recordLadderGame account.id account.name product league
      outcome (averageRating ratings))
    return (.continue, s)

def recordNormal (s : Bncs) (account : Account) (product : Text) (outcome : GameOutcome) :
    Handling := do
  let _ : Except Text Nat ← ask (.recordGame account.id product outcome)
  return (.continue, s)

/-- Record what a report says of the session's own player. -/
def recordResult (s : Bncs) (account : Account) (product : Text) (report : ResultReport) :
    Handling :=
  match report.outcome account.name with
  | none => return (.continue, s)
  | some outcome =>
    if League.fromCode report.gameType = .normal then s.recordNormal account product outcome
    else s.recordLadder account product report outcome

/-- How long the game of a seat has lasted: from its start, if its host said so since the seat was
taken. -/
def seatLasted (s : Bncs) (seat : GameSeat) : Program Nat := do
  let at? : Option Nat ← ask (.gameStartedAt s.product seat.name)
  let started := (at?.filter (seat.since ≤ ·)).getD seat.since
  let now : Nat ← ask .instant
  return now - started

/-- `SID_GAMERESULT`. Only a game that lasted long enough counts. -/
def gameResult (cfg : ServerConfig) (s : Bncs) (frame : Frame) : Handling :=
  match s.account, s.product, readResults.read frame, s.gameSeat with
  | some account, some product, .ok report, some seat => do
    let lasted ← s.seatLasted seat
    if cfg.minGameLength ≠ 0 ∧ lasted ≤ cfg.minGameLength then return (.continue, s)
    else s.recordResult account product.toText report
  | _, _, _, _ => return (.continue, s)

end Bncs

end CommandCenter.Daemon
