import CommandCenter.Proto.D2
import CommandCenter.Proto.Mcp
import CommandCenter.Rust.Utf8
import CommandCenter.Storage.Model

/-!
# The game lobby

What the realm and its Diablo II game server say to each other of games, from
`crates/bnetcc-gslink/src/lib.rs`, and which games a character may see and join, from
`crates/bnetccd/src/realm.rs`. The Unicode tables behind `str::to_lowercase` are a parameter.

* `joinRefusal_eq_none`: what a character needs for a game.
-/

namespace CommandCenter.Daemon

open Rust Proto D2
open Storage (Character)

/-- What the lobby shows about a game, fixed when it is created. -/
structure GameSettings where
  description : Text
  /-- 1 to 8. -/
  maxPlayers : UInt8
  /-- How far from the creator's level a character may be, if there is a restriction. -/
  levelDifference : Option UInt8
  creatorLevel : UInt8
  expansion : Bool
  hardcore : Bool
  ladder : Bool
  deriving DecidableEq

structure LobbyPlayer where
  name : Text
  /-- `class` in the source. -/
  heroClass : UInt8
  level : UInt8
  deriving DecidableEq

/-- A game as the lobby lists and describes it. -/
structure LobbyGame where
  token : UInt16
  name : Text
  «private» : Bool
  /-- 0 Normal, 1 Nightmare, 2 Hell. -/
  difficulty : UInt8
  /-- `none` for a game created over link version 1. -/
  settings : Option GameSettings
  players : List LobbyPlayer
  ageSecs : Nat
  deriving DecidableEq

/-- Why a game could not be created. -/
inductive CreateError where
  | nameTaken
  | full
  deriving DecidableEq

/-- Why a join could not be staged. -/
inductive JoinError where
  | noSuchGame
  | badPassword
  | full
  | noSuchCharacter
  deriving DecidableEq

structure Joined where
  token : UInt16
  hash : UInt32
  deriving DecidableEq

/-- Why a request got no answer. -/
inductive LinkError where
  | down
  deriving DecidableEq

/-! ## Characters -/

def hasBit (status bit : UInt8) : Bool := status &&& bit != 0

/-- The hardest difficulty a character has reached. -/
def highestDifficulty (c : Character) : UInt8 :=
  let acts := if hasBit c.status Status.expansion then 5 else 4
  min (c.progression / acts) 2

/-- A hardcore character that has died. -/
def isDeadHardcore (c : Character) : Bool :=
  hasBit c.status Status.hardcore && hasBit c.status Status.dead

/-- The portrait a stored character is drawn with. -/
def portrait (c : Character) : Portrait := ⟨c.heroClass, c.status, c.level, c.progression⟩

/-! ## Games -/

/-- `u8::abs_diff`. -/
def absDiff (a b : UInt8) : UInt8 := if a ≤ b then b - a else a - b

/-- The client has a message for one side of each pair. -/
def kindRefusal (game has : Bool) (missing unwanted : UInt32) : Option UInt32 :=
  match game, has with
  | true, false => some missing
  | false, true => some unwanted
  | true, true | false, false => none

/-- Why `c` may not join `game`, as `MCP_JOINGAME` says it. -/
def joinRefusal (c : Character) (game : LobbyGame) : Option UInt32 :=
  let kind := game.settings.bind fun s =>
    kindRefusal s.hardcore (hasBit c.status Status.hardcore) Mcp.JoinResult.notHardcore
        Mcp.JoinResult.noSuchGame <|>
      kindRefusal s.expansion (hasBit c.status Status.expansion) Mcp.JoinResult.notExpansion
        Mcp.JoinResult.notClassic <|>
      kindRefusal s.ladder (hasBit c.status Status.ladder) Mcp.JoinResult.notLadder
        Mcp.JoinResult.noSuchGame
  let difficulty :=
    if highestDifficulty c < game.difficulty then
      some (if 2 ≤ game.difficulty then Mcp.JoinResult.noHell else Mcp.JoinResult.noNightmare)
    else none
  let room := game.settings.bind fun s =>
    if s.levelDifference.any fun difference => difference < absDiff c.level s.creatorLevel then
      some Mcp.JoinResult.levelRequirement
    else if (min (max s.maxPlayers 1) 8).toNat ≤ game.players.length then
      some Mcp.JoinResult.full
    else none
  kind <|> difficulty <|> room

/-- Whether the game list shows `game` to `c`. -/
def listable (toLowercase : Text → Text) (c : Character) (game : LobbyGame) (filter : Text) :
    Bool :=
  (joinRefusal c game).isNone &&
    (filter.isEmpty || decide (toLowercase filter <:+: toLowercase game.name))

/-- A game's status in the lobby's replies. -/
def statusOf (game : LobbyGame) : UInt32 :=
  Mcp.gameFlags game.difficulty (game.settings.any GameSettings.hardcore)
    (game.settings.any GameSettings.expansion) (game.settings.any GameSettings.ladder)

/-- The `MCP_GAMEINFO` reply describing `game`. -/
def gameinfoBody (requestId : UInt16) (game : LobbyGame) : List UInt8 :=
  let s := game.settings
  Mcp.gameinfoReply requestId {
    status := statusOf game
    uptimeSecs := u32OrMax game.ageSecs
    creatorLevel := (s.map GameSettings.creatorLevel).getD 0
    levelDifference := (s.bind GameSettings.levelDifference).getD 0xFF
    maxPlayers := (s.map GameSettings.maxPlayers).getD 8
    description := (s.map fun s => s.description.asBytes).getD []
    characters := game.players.map fun p => ⟨p.heroClass, p.level, p.name.asBytes⟩ }

/-- The `MCP_GAMELIST` entry of `game`. -/
def gamelistBody (requestId : UInt16) (game : LobbyGame) : List UInt8 :=
  Mcp.gamelistEntry requestId game.token.toUInt32
    (if game.players.length < 256 then .ofNat game.players.length else 255) (statusOf game)
    game.name.asBytes ((game.settings.map fun s => s.description.asBytes).getD [])

/-- `s` cut to at most `max` bytes, on a character boundary. -/
def clip : Text → (max : Nat) → Text
  | [], _ => []
  | c :: s, max => if c.utf8Size ≤ max then c :: clip s (max - c.utf8Size) else []

/-! ## What a character needs -/

def GameSettings.IsOfKind (s : GameSettings) (c : Character) : Prop :=
  s.hardcore = hasBit c.status Status.hardcore ∧
    s.expansion = hasBit c.status Status.expansion ∧ s.ladder = hasBit c.status Status.ladder

theorem kindRefusal_eq_none {game has : Bool} {missing unwanted : UInt32} :
    kindRefusal game has missing unwanted = none ↔ game = has := by
  cases game <;> cases has <;> simp [kindRefusal]

/-- What a character needs to join a game over link version 2. -/
theorem joinRefusal_eq_none {c : Character} {game : LobbyGame} {s : GameSettings}
    (hs : game.settings = some s) : joinRefusal c game = none ↔
      s.IsOfKind c ∧ game.difficulty ≤ highestDifficulty c ∧
        (∀ difference ∈ s.levelDifference, absDiff c.level s.creatorLevel ≤ difference) ∧
          game.players.length < (min (max s.maxPlayers 1) 8).toNat := by
  have horElse {a b : Option UInt32} : (a <|> b) = none ↔ a = none ∧ b = none := by
    cases a <;> simp
  have hroom {p q : Prop} [Decidable p] [Decidable q] {a b : UInt32} :
      (if p then some a else if q then some b else none) = none ↔ ¬ p ∧ ¬ q := by
    by_cases hp : p <;> by_cases hq : q <;> simp [hp, hq]
  rw [joinRefusal, horElse, horElse, hs, Option.bind_some, Option.bind_some, horElse, horElse,
    hroom, kindRefusal_eq_none, kindRefusal_eq_none, kindRefusal_eq_none,
    GameSettings.IsOfKind]
  simp [Option.any_eq_true, and_assoc]

end CommandCenter.Daemon
