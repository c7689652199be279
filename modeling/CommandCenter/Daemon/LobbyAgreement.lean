import CommandCenter.Daemon.RealmServer

/-!
# What the lobby offers, it accepts

A realm connection asks for the game list, joins a game of it by its name and makes games, with
nothing changed in between (`crates/bnetccd/src/realm.rs`).

* `playing_asked`: both times the same character is looked at.
* `joinGame_asked`: when a join is passed on to the game server.
* `createGame_asked`: what the game server is asked for when a game is made.
* `lobby_offers`: a listed game is joined, unless the character is a dead hardcore one or there is
  no address to send the client to; a game is one that the character may join, if the character has
  reached its difficulty.
-/

namespace CommandCenter.Daemon

open Rust Proto D2 Library
open Storage (Account Character CharacterStore)

/-- The game server, over link version 2. -/
structure GameServer where
  games : List LobbyGame
  /-- The game of a name. -/
  info : Text → Option LobbyGame
  describes : ∀ g ∈ games, info g.name = some g

def Outside.serving (x : Outside) (server : GameServer) : Outside :=
  { x with listGames := .ok server.games, gameInfo := fun name => .ok (server.info name) }

namespace RealmNode

variable (n : RealmNode) (x : Outside) {α β : Type}

/-- What a program comes to while nothing changes. -/
def result (program : RealmProgram α) : α := program.eval fun _ q => (n.answer x q).1

def asked (program : RealmProgram α) : List RealmRequest :=
  program.requests fun _ q => (n.answer x q).1

variable {n x}

@[simp] theorem result_pure {value : α} : n.result x (pure value) = value := rfl

-- the type of the answer is left out of the index: it comes reduced
@[simp] theorem result_ask {q : RealmRequest} :
    n.result x (α := no_index (RealmReply q)) (realmAsk q) = (n.answer x q).1 := rfl

@[simp] theorem result_bind {program : RealmProgram α} {f : α → RealmProgram β} :
    n.result x (program >>= f) = n.result x (f (n.result x program)) := Asking.eval_bind

@[simp] theorem asked_pure {value : α} : n.asked x (pure value) = [] := rfl

@[simp] theorem asked_ask {q : RealmRequest} :
    n.asked x (α := no_index (RealmReply q)) (realmAsk q) = [q] := rfl

@[simp] theorem asked_bind {program : RealmProgram α} {f : α → RealmProgram β} :
    n.asked x (program >>= f) =
      n.asked x program ++ n.asked x (f (n.result x program)) := Asking.requests_bind

end RealmNode

namespace Mcp

variable {cfg : RealmConfig} {m : Mcp} {n : RealmNode} {x : Outside} {c : Character}

/-- The character played is looked up, and nothing else. -/
theorem playing_asked {q : RealmRequest} (hq : q ∈ n.asked x m.playing) :
    ∃ name, q = .characterByName name := by
  unfold playing ownCharacter at hq
  cases hselected : m.selected with
  | none => simp [hselected] at hq
  | some selected => exact ⟨selected, by simpa [hselected] using hq⟩

variable (cfg m n x) in
theorem gameList_offers (server : GameServer) (frame : Frame) :
    ∃ (requestId : UInt16) (offered : List LobbyGame),
      n.result (x.serving server) (m.gameList cfg frame) =
        offered.map (fun g => ⟨Mcp.Msg.gameList, gamelistBody requestId g⟩) ++
          [⟨Mcp.Msg.gameList, Mcp.gamelistEnd requestId⟩] ∧
      ∀ g ∈ offered, cfg.gameServer = true ∧ g ∈ server.games ∧
        ∃ c, n.result (x.serving server) m.playing = some c ∧ joinRefusal c g = none := by
  unfold gameList
  generalize Reader.scan _ frame = request
  obtain ⟨requestId, filter⟩ := request
  simp only [RealmNode.result_bind]
  split
  · rename_i c hserver hplaying
    have hgames : ((n.answer (x.serving server) .listGames).1 :
      Except LinkError (List LobbyGame)) = .ok server.games := rfl
    simp only [RealmNode.result_bind, RealmNode.result_ask, RealmNode.result_pure, hgames]
    refine ⟨requestId, _, rfl, fun g hg => ?_⟩
    obtain ⟨hgame, hlistable⟩ := List.mem_filter.mp (List.mem_of_mem_take hg)
    have hjoins := (Bool.and_eq_true_iff.mp hlistable).1
    exact ⟨hserver, hgame, c, hplaying, Option.isNone_iff_eq_none.mp hjoins⟩
  · exact ⟨requestId, [], rfl, fun _ hg => nomatch hg⟩
  · exact ⟨requestId, [], rfl, fun _ hg => nomatch hg⟩

/-- When a join is passed on to the game server. -/
theorem joinGame_asked {server : GameServer} {frame : Frame} {game : LobbyGame}
    (hserver : cfg.gameServer = true) (hplaying : n.result (x.serving server) m.playing = some c)
    (hgame : server.info (Reader.scan readJoinGame frame).name = some game)
    (hrefusal : joinRefusal c game = none) :
    .joinGame (Reader.scan readJoinGame frame).name (Reader.scan readJoinGame frame).password
        c.account c.name ∈ n.asked (x.serving server) (m.joinGame cfg frame) ↔
      isDeadHardcore c = false ∧ x.address.isSome = true := by
  have haddress : ((n.answer (x.serving server) .clientFacingIpv4).1 : Option (Bytes 4)) =
    x.address := rfl
  have hinfo : ((n.answer (x.serving server)
      (.gameInfo (Reader.scan readJoinGame frame).name)).1 :
        Except LinkError (Option LobbyGame)) = .ok (some game) := congrArg Except.ok hgame
  have hnot {q : RealmRequest} {name password : Text} {account : Core.AccountId}
      {character : Text} (hq : q ∈ n.asked (x.serving server) m.playing) :
      q ≠ .joinGame name password account character := by
    obtain ⟨name', rfl⟩ := playing_asked hq
    nofun
  unfold joinGame
  cases hdead : isDeadHardcore c with
  | true =>
    simp only [RealmNode.asked_bind, RealmNode.asked_ask, hplaying, hserver, List.mem_append, hdead,
      if_true, RealmNode.asked_pure]
    simpa using fun hq => hnot hq rfl
  | false =>
    have hjoins : ((Except.ok (some game) : Except LinkError _).toOption.getD none).bind
        (joinRefusal c) = none := hrefusal
    simp only [RealmNode.asked_bind, RealmNode.asked_ask, RealmNode.result_ask, hplaying, hserver,
      List.mem_append, hdead, Bool.false_eq_true, if_false, RealmNode.asked_pure,
      RealmNode.result_pure, haddress, hinfo, hjoins]
    cases x.address with
    | none => simpa using fun hq => hnot hq rfl
    | some ip => simp

/-- The reply to an `MCP_CREATEGAME`. -/
def createGameReply (requestId token : UInt16) (code : UInt32) : Frame :=
  ⟨Mcp.Msg.createGame, Writer.u16 requestId ++ Writer.u16 token ++ Writer.u16 0 ++
    Writer.u32 code⟩

theorem createGameReply_code {requestId requestId' token token' : UInt16} {code code' : UInt32}
    (h : createGameReply requestId token code = createGameReply requestId' token' code') :
    Writer.u32 code = Writer.u32 code' :=
  List.append_inj_right' (congrArg Frame.body h) rfl

/-- What the game server is asked for when a game is made. -/
theorem createGame_asked {frame : Frame} {requestId token : UInt16}
    (hreply : n.result x (m.createGame cfg frame) =
      createGameReply requestId token Mcp.CreateGameResult.ok) :
    [.createGame (Reader.scan readCreateGame frame).name
        (Reader.scan readCreateGame frame).password (Reader.scan readCreateGame frame).difficulty
        (m.gameSettings (Reader.scan readCreateGame frame) (n.result x m.playing))] <:+
      n.asked x (m.createGame cfg frame) ∧
    ∃ id, x.createGame (Reader.scan readCreateGame frame).name
        (Reader.scan readCreateGame frame).password (Reader.scan readCreateGame frame).difficulty
        (m.gameSettings (Reader.scan readCreateGame frame) (n.result x m.playing)) =
      .ok (.ok id) := by
  -- any other reply has another code
  have hcode {requestId' token' : UInt16} {code : UInt32}
      (h : createGameReply requestId' token' code =
        createGameReply requestId token Mcp.CreateGameResult.ok) :
      Writer.u32 code = Writer.u32 Mcp.CreateGameResult.ok := createGameReply_code h
  unfold createGame at hreply ⊢
  generalize Reader.scan readCreateGame frame = g at hreply ⊢
  simp only [RealmNode.result_bind] at hreply
  simp only [RealmNode.asked_bind]
  split at hreply
  · exact absurd (hcode hreply) (by decide)
  rename_i hname
  rw [if_neg hname]
  simp only [RealmNode.result_bind] at hreply
  simp only [RealmNode.asked_bind]
  split at hreply
  · exact absurd (hcode hreply) (by decide)
  rename_i hdead
  rw [if_neg hdead]
  split at hreply
  · rename_i hserver
    rw [if_pos hserver]
    simp only [RealmNode.result_bind, RealmNode.result_ask] at hreply
    simp only [RealmNode.asked_bind, RealmNode.asked_ask, RealmNode.result_ask]
    split at hreply
    · rename_i id hanswer
      refine ⟨⟨n.asked x m.playing ++ n.asked x m.selectedIsDead, ?_⟩, id, hanswer⟩
      simp
    · exact absurd (hcode hreply) (by decide)
    · exact absurd (hcode hreply) (by decide)
    · exact absurd (hcode hreply) (by decide)
  · exact absurd (hcode hreply) (by decide)

/-- A creator of level 0 counts as one of level 1. -/
theorem absDiff_max_one (level : UInt8) :
    absDiff level (max level 1) = if level = 0 then 1 else 0 := by
  show absDiff level (if level ≤ 1 then 1 else level) = _
  by_cases hle : level ≤ 1
  · have hcases : level = 0 ∨ level = 1 := by
      rw [UInt8.le_iff_toNat_le] at hle
      rw [← UInt8.toNat_inj, ← UInt8.toNat_inj]
      exact Nat.le_one_iff_eq_zero_or_eq_one.mp hle
    rcases hcases with rfl | rfl <;> decide
  · have hzero : level ≠ 0 := by
      rintro rfl
      exact hle (by decide)
    rw [if_neg hle, if_neg hzero, absDiff, if_pos (UInt8.le_refl level), UInt8.sub_self]

theorem one_le_iff {v : UInt8} : 1 ≤ v ↔ v ≠ 0 := by
  rw [UInt8.le_iff_toNat_le, ne_eq, ← UInt8.toNat_inj]
  exact Nat.one_le_iff_ne_zero

theorem room_pos (maxPlayers : UInt8) : 0 < (min (max maxPlayers 1) 8).toNat := by
  show 0 < (if (if maxPlayers ≤ 1 then 1 else maxPlayers) ≤ 8 then
    (if maxPlayers ≤ 1 then 1 else maxPlayers) else 8 : UInt8).toNat
  by_cases hle : maxPlayers ≤ 1
  · simp [hle]
  · rw [if_neg hle]
    rw [UInt8.le_iff_toNat_le] at hle
    split
    · exact Nat.lt_of_not_le fun h => hle (h.trans (Nat.zero_le _))
    · decide

theorem joinRefusal_made {g : CreateGame} {game : LobbyGame}
    (hdifficulty : game.difficulty = g.difficulty)
    (hsettings : game.settings = some (m.gameSettings g (some c))) (hplayers : game.players = []) :
    joinRefusal c game = none ↔
      g.difficulty ≤ highestDifficulty c ∧ ¬ (c.level = 0 ∧ g.levelDifference = 0) := by
  have hkind : (m.gameSettings g (some c)).IsOfKind c := ⟨rfl, rfl, rfl⟩
  have hroom : game.players.length <
      (min (max (m.gameSettings g (some c)).maxPlayers 1) 8).toNat := by
    rw [hplayers]
    exact room_pos _
  have hlevel : (∀ difference ∈ (m.gameSettings g (some c)).levelDifference,
      absDiff c.level (m.gameSettings g (some c)).creatorLevel ≤ difference) ↔
        ¬ (c.level = 0 ∧ g.levelDifference = 0) := by
    show (∀ difference ∈ (if g.levelDifference < noLevelDifference then some g.levelDifference
      else none), absDiff c.level (max c.level 1) ≤ difference) ↔ _
    rw [absDiff_max_one]
    by_cases hnone : g.levelDifference < noLevelDifference
    · rw [if_pos hnone]
      by_cases hzero : c.level = 0
      · simpa [hzero] using one_le_iff
      · simp [hzero]
    · rw [if_neg hnone]
      have hpos : g.levelDifference ≠ 0 := by
        rintro h
        exact hnone (h ▸ by decide)
      simp [hpos]
  rw [joinRefusal_eq_none hsettings, hdifficulty, hlevel]
  exact ⟨fun h => ⟨h.2.1, h.2.2.1⟩, fun h => ⟨hkind, h.1, h.2, hroom⟩⟩

end Mcp

section Offers

variable (cfg : RealmConfig) (m : Mcp) (n : RealmNode) (x : Outside) (server : GameServer)

/-- **What the lobby offers.** A game of the game list, joined by its name, is passed on to the
game server just if the character is no dead hardcore one and there is an address to send the
client to; a game that a character makes is one that it may join just if the character has reached
its difficulty, a character of level 0 with a level difference of 0 apart. -/
theorem lobby_offers :
    (∀ frame, ∃ (requestId : UInt16) (offered : List LobbyGame),
      n.result (x.serving server) (m.gameList cfg frame) =
        offered.map (fun g => ⟨Mcp.Msg.gameList, gamelistBody requestId g⟩) ++
          [⟨Mcp.Msg.gameList, Mcp.gamelistEnd requestId⟩] ∧
      ∀ g ∈ offered, ∃ c, n.result (x.serving server) m.playing = some c ∧
        ∀ join, (Reader.scan Mcp.readJoinGame join).name = g.name →
          (.joinGame g.name (Reader.scan Mcp.readJoinGame join).password c.account c.name ∈
              n.asked (x.serving server) (m.joinGame cfg join) ↔
            isDeadHardcore c = false ∧ x.address.isSome = true)) ∧
    ∀ c, n.result (x.serving server) m.playing = some c → ∀ frame requestId token,
      n.result (x.serving server) (m.createGame cfg frame) =
        Mcp.createGameReply requestId token Mcp.CreateGameResult.ok →
      ∃ name password difficulty settings,
        [.createGame name password difficulty settings] <:+
          n.asked (x.serving server) (m.createGame cfg frame) ∧
        (∃ id, x.createGame name password difficulty settings = .ok (.ok id)) ∧
        ∀ game : LobbyGame, game.difficulty = difficulty → game.settings = some settings →
          game.players = [] → (joinRefusal c game = none ↔
            (Reader.scan Mcp.readCreateGame frame).difficulty ≤ highestDifficulty c ∧
              ¬ (c.level = 0 ∧ (Reader.scan Mcp.readCreateGame frame).levelDifference = 0)) := by
  refine ⟨fun frame => ?_, fun c hplaying frame requestId token hreply => ?_⟩
  · obtain ⟨requestId, offered, hreply, hoffered⟩ :=
      Mcp.gameList_offers cfg m n x server frame
    refine ⟨requestId, offered, hreply, fun g hg => ?_⟩
    obtain ⟨hserver, hgame, c, hplaying, hjoins⟩ := hoffered g hg
    refine ⟨c, hplaying, fun join hname => ?_⟩
    rw [← hname]
    refine Mcp.joinGame_asked hserver hplaying ?_ hjoins
    rw [hname]
    exact server.describes g hgame
  · obtain ⟨hasked, hmade⟩ := Mcp.createGame_asked hreply
    rw [hplaying] at hasked hmade
    refine ⟨_, _, _, _, hasked, hmade, fun game hdifficulty hsettings hplayers => ?_⟩
    exact Mcp.joinRefusal_made hdifficulty hsettings hplayers

end Offers

/-! ## Where it does not -/

def openRealm : RealmConfig := ⟨[], 8, true, id⟩

/-- An account with a character, which it plays. -/
def fallenHero : Character where
  account := 1
  name := "Fallen".toList
  heroClass := 0
  status := Status.hardcore ||| Status.dead
  level := 1
  progression := 0
  createdAt := 0
  lastPlayed := 0
  save := none

def novice : Character := { fallenHero with name := "Novice".toList, status := 0 }

def heroes : Account := ⟨1, "heroes".toList, .xsha1 (.replicate 20 0), 0⟩

def heroNode : RealmNode where
  store := .ofAccount heroes [fallenHero, novice] (by decide) (by decide)
  tickets := ∅

def playingAs (c : Character) : Mcp := ⟨some ⟨0, heroes, Product.d2xp⟩, some c.name⟩

def hardcoreGame : LobbyGame where
  token := 1
  name := "hc".toList
  «private» := false
  difficulty := 0
  settings := some ⟨[], 8, none, 1, false, true, false⟩
  players := []
  ageSecs := 0

def hardcoreServer : GameServer where
  games := [hardcoreGame]
  info _ := some hardcoreGame
  describes := by decide

/-- The game server makes every game. -/
def agreeable : Outside :=
  { Outside.unlinked with
    address := some (.replicate 4 0)
    createGame := fun _ _ _ _ => .ok (.ok 1) }

/-- A request to make a game in Hell. -/
def hellGame : Frame := ⟨Mcp.Msg.createGame,
  Writer.u16 0 ++ Writer.u32 0x2000 ++ [1, 0xFF, 8] ++ Writer.cstr (Text.asBytes "hell".toList) ++
    [0, 0]⟩

/-- A request to join the game for hardcore characters. -/
def joinHardcore : Frame :=
  ⟨Mcp.Msg.joinGame, Writer.u16 0 ++ Writer.cstr hardcoreGame.name.asBytes ++ [0]⟩

/-- A dead hardcore character is offered a game and not let in, and a novice makes a game in Hell
that it may not join. -/
theorem lobby_offers_fails :
    (heroNode.result (agreeable.serving hardcoreServer)
        ((playingAs fallenHero).gameList openRealm ⟨Mcp.Msg.gameList, []⟩) =
      [⟨Mcp.Msg.gameList, gamelistBody 0 hardcoreGame⟩,
        ⟨Mcp.Msg.gameList, Mcp.gamelistEnd 0⟩] ∧
      (Reader.scan Mcp.readJoinGame joinHardcore).name = hardcoreGame.name ∧
      heroNode.asked (agreeable.serving hardcoreServer)
          ((playingAs fallenHero).joinGame openRealm joinHardcore) =
        [.clientFacingIpv4, .characterByName fallenHero.name] ∧
      heroNode.result (agreeable.serving hardcoreServer)
          ((playingAs fallenHero).joinGame openRealm joinHardcore) =
        ⟨Mcp.Msg.joinGame, Writer.u16 0 ++ Writer.u16 0 ++ Writer.u16 0 ++ Writer.u32 0 ++
          Writer.u32 0 ++ Writer.u32 Mcp.JoinResult.deadHardcore⟩) ∧
    heroNode.result (agreeable.serving hardcoreServer) (playingAs novice).playing = some novice ∧
    heroNode.result (agreeable.serving hardcoreServer)
        ((playingAs novice).createGame openRealm hellGame) =
      Mcp.createGameReply 0 1 Mcp.CreateGameResult.ok ∧
    ∃ settings, [.createGame "hell".toList [] 2 settings] <:+
        heroNode.asked (agreeable.serving hardcoreServer)
          ((playingAs novice).createGame openRealm hellGame) ∧
      joinRefusal novice ⟨1, "hell".toList, false, 2, some settings, [], 0⟩ =
        some Mcp.JoinResult.noHell := by
  refine ⟨⟨by decide, by decide, rfl, by decide⟩, by decide, by decide,
    (playingAs novice).gameSettings (Reader.scan Mcp.readCreateGame hellGame) (some novice), ?_, ?_⟩
  · exact ⟨[.characterByName novice.name, .characterByName novice.name], rfl⟩
  · decide

end CommandCenter.Daemon
