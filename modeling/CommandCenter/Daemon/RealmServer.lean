import CommandCenter.Daemon.Realm
import CommandCenter.Daemon.Season
import CommandCenter.Daemon.Server
import CommandCenter.Library.Sessions

/-!
# The realm

Any number of realm connections over the realm tickets of the node (`crates/bnetccd/src/node.rs`)
and the storage actor (`crates/bnetccd/src/storage.rs`), which handles one command at a time over
the in-memory backend. Logins mint and revoke tickets, accounts come and go, and the
administrator ends the season.

Where a command fails (the actor is gone, or its backend says so) the store stays as it was.
-/

namespace CommandCenter.Daemon

open Rust CommandCenter.Core Proto Library
open Storage (Account Character CharacterStore NewAccount Result StorageError)

/-- What a handler needs of the node. -/
structure RealmNode where
  store : CharacterStore
  /-- `realm_tickets` in the source. -/
  tickets : Map UInt64 RealmTicket

/-- What is outside of the node when a request is answered. -/
structure Outside where
  now : Nat
  /-- Where a client is sent to for a game. -/
  address : Option (Bytes 4)
  /-- Why the storage actor fails the command, if it does. -/
  fault : Option Text
  createGame : Text → Text → UInt8 → GameSettings → Except LinkError (Except CreateError UInt16)
  listGames : Except LinkError (List LobbyGame)
  gameInfo : Text → Except LinkError (Option LobbyGame)
  joinGame : Text → Text → AccountId → Text → Except LinkError (Except JoinError Joined)

/-- The storage actor answers, and no game server is linked. -/
def Outside.unlinked : Outside where
  now := 0
  address := none
  fault := none
  createGame _ _ _ _ := .error .down
  listGames := .error .down
  gameInfo _ := .error .down
  joinGame _ _ _ _ := .error .down

namespace RealmNode

/-- A result of the storage as the actor passes it on. -/
def passOn {α : Type} : Result α → Except Text α
  | .ok value => .ok value
  | .error e => .error e.display

def passOnCreated : Result Unit → Except CreateCharacterError Unit
  | .ok () => .ok ()
  | .error .nameTaken => .error .nameTaken
  | .error e => .error (.backend e.display)

/-- The ticket, if `id` is live and `cookie` matches it. -/
def realmTicket (n : RealmNode) (id : UInt64) (cookie : UInt32) : Option RealmTicket :=
  (n.tickets.lookup id).filter fun t => t.cookie == cookie

/-- The answer to a request, and the node after it. -/
def answer (n : RealmNode) (x : Outside) : (q : RealmRequest) → RealmReply q × RealmNode
  | .realmTicket id cookie => (n.realmTicket id cookie, n)
  | .nowSecs => (x.now, n)
  | .clientFacingIpv4 => (x.address, n)
  | .characters account =>
    match x.fault with
    | some why => (.error why, n)
    | none => (passOn (n.store.characters account), n)
  | .allCharacters => (if x.fault.isSome then [] else allCharacters n.store, n)
  | .characterByName name =>
    (if x.fault.isSome then none else (n.store.characterByName name).toOption.getD none, n)
  | .createCharacter character =>
    match x.fault with
    | some why => (.error (.backend why), n)
    | none =>
      let (result, store) := n.store.createCharacter character
      (passOnCreated result, { n with store })
  | .updateCharacter character =>
    match x.fault with
    | some why => (.error why, n)
    | none =>
      let (result, store) := n.store.updateCharacter character
      (passOn result, { n with store })
  | .deleteCharacter account name =>
    match x.fault with
    | some why => (.error why, n)
    | none =>
      let (result, store) := n.store.deleteCharacter account name
      (passOn result, { n with store })
  | .createGame name password difficulty settings =>
    (x.createGame name password difficulty settings, n)
  | .listGames => (x.listGames, n)
  | .gameInfo name => (x.gameInfo name, n)
  | .joinGame name password account character => (x.joinGame name password account character, n)

inductive Change where
  /-- A login mints a ticket under a random id. -/
  | mintRealmTicket (id : UInt64) (ticket : RealmTicket)
  | revokeRealmTicket (id : UInt64)
  | createAccount (req : NewAccount)
  | deleteUser (account : AccountId)
  | endLadderSeason

/-- The season ends for every character of the store. -/
def endSeason (s : CharacterStore) : CharacterStore :=
  ⟨(endLadderSeason s.store).2, tidy_endLadderSeason s.tidy⟩

def change (n : RealmNode) : Change → RealmNode
  | .mintRealmTicket id ticket =>
    -- an id that is taken, or zero, is drawn again
    if id = 0 ∨ id ∈ n.tickets then n
    else { n with tickets := n.tickets.insert id ticket }
  | .revokeRealmTicket id => { n with tickets := n.tickets.erase id }
  | .createAccount req => { n with store := n.store.createAccount req }
  | .deleteUser account => { n with store := n.store.deleteAccount account }
  | .endLadderSeason => { n with store := endSeason n.store }

theorem list_endSeason (s : CharacterStore) : (endSeason s).list = s.list.map ended := by
  obtain ⟨n, heq⟩ := endLadderSeason_eq s.tidy
  show (endLadderSeason s.store).2.characterList = _
  rw [heq]
  rfl

end RealmNode

abbrev RealmService :=
  Service Mcp Frame RealmReply (List Frame) RealmNode Outside RealmNode.Change

def realm (cfg : RealmConfig) : RealmService where
  accepts := Mcp.accepts
  handle := Mcp.handle cfg
  answer := RealmNode.answer
  moves := RealmNode.change

/-- A realm with its connections, and what they have done. -/
abbrev RealmWorld := Library.World ConnId Mcp Frame RealmReply (List Frame) RealmNode

abbrev RealmDeed := Deed Frame RealmReply (List Frame)

abbrev RealmEvent := Service.Event ConnId Frame Outside RealmNode.Change

namespace RealmWorld

/-- A realm whose connections have yet to send something. -/
def new (node : RealmNode) : RealmWorld := Service.new node ⟨none, none⟩

def characters (w : RealmWorld) : List Character := w.node.store.list

end RealmWorld

/-!
## What the handlers of a realm connection ask for

Most handlers of `crates/bnetccd/src/realm.rs` read only. A character is made by `MCP_CHARCREATE`
alone, and updated by `MCP_CHARLOGON` and `MCP_CHARUPGRADE` alone.

* `Mcp.only_handle`: what a frame is handled with, by its id.
* `sound_creating`: what a connection asks for in `MCP_CHARCREATE` is all that it has made.
-/

open D2
open Storage (Character)

/-- A program makes only requests with `p`. -/
abbrev RealmProgram.Only {α : Type} (p : RealmRequest → Prop) (x : RealmProgram α) : Prop :=
  x.Within p fun _ => True

/-- A request that changes no character. -/
def RealmRequest.Reads : RealmRequest → Prop
  | .createCharacter _ | .updateCharacter _ | .deleteCharacter _ _ => False
  | _ => True

variable {α β : Type} {p : RealmRequest → Prop}

theorem only_pure {value : α} : RealmProgram.Only p (pure value) := trivial

theorem only_ask {q : RealmRequest} (hq : p q) : RealmProgram.Only p (realmAsk q) :=
  ⟨hq, fun _ _ => trivial⟩

theorem only_bind {x : RealmProgram α} {f : α → RealmProgram β} (hx : RealmProgram.Only p x)
    (hf : ∀ value, RealmProgram.Only p (f value)) : RealmProgram.Only p (x >>= f) :=
  Asking.Within.bind hx fun value _ => hf value

theorem only_ite {c : Prop} [Decidable c] {x y : RealmProgram α} (hx : c → RealmProgram.Only p x)
    (hy : ¬ c → RealmProgram.Only p y) : RealmProgram.Only p (if c then x else y) :=
  Asking.keeps_ite hx hy

namespace Mcp

variable {cfg : RealmConfig} {m : Mcp} {frame : Frame}

/-! ## Handlers that read -/

section Reads

variable (hp : ∀ q : RealmRequest, q.Reads → p q)

include hp

theorem only_startup : RealmProgram.Only p (m.startup frame) := by
  unfold startup
  cases Reader.read readStartup frame with
  | error e => exact only_pure
  | ok request =>
    refine only_bind (only_ask (hp _ trivial)) fun ticket => ?_
    cases ticket <;> exact only_pure

theorem only_charList (withExpiry : Bool) : RealmProgram.Only p (m.charList frame withExpiry) := by
  unfold charList visibleCharacters
  refine only_bind (only_bind (only_ask (hp _ trivial)) fun chars => ?_) fun _ => only_pure
  cases chars <;> exact only_pure

theorem only_ownCharacter (name : Text) : RealmProgram.Only p (m.ownCharacter name) :=
  only_bind (only_ask (hp _ trivial)) fun _ => only_pure

theorem only_playing : RealmProgram.Only p m.playing := by
  unfold playing
  cases m.selected with
  | none => exact only_pure
  | some selected => exact only_ownCharacter hp selected

theorem only_selectedIsDead : RealmProgram.Only p m.selectedIsDead := by
  unfold selectedIsDead
  cases m.selected with
  | none => exact only_pure
  | some selected => exact only_bind (only_ownCharacter hp selected) fun _ => only_pure

theorem only_ladderData : RealmProgram.Only p (m.ladderData frame) := by
  unfold ladderData
  generalize Reader.scan _ frame = request
  exact only_bind (only_ask (hp _ trivial)) fun _ => only_pure

theorem only_gameList : RealmProgram.Only p (m.gameList cfg frame) := by
  unfold gameList
  generalize Reader.scan _ frame = request
  refine only_bind (only_playing hp) fun own => ?_
  cases cfg.gameServer <;> cases own
  · exact only_pure
  · exact only_pure
  · exact only_pure
  · exact only_bind (only_ask (hp _ trivial)) fun _ => only_pure

theorem only_gameInfo : RealmProgram.Only p (gameInfo cfg frame) := by
  unfold gameInfo
  generalize Reader.scan _ frame = request
  refine only_ite (fun _ => ?_) fun _ => only_pure
  exact only_bind (only_ask (hp _ trivial)) fun _ => only_pure

theorem only_createGame : RealmProgram.Only p (m.createGame cfg frame) := by
  unfold createGame
  refine only_bind (only_playing hp) fun creator => ?_
  refine only_ite (fun _ => only_pure) fun _ => ?_
  refine only_bind (only_selectedIsDead hp) fun dead => ?_
  refine only_ite (fun _ => only_pure) fun _ => ?_
  refine only_ite (fun _ => ?_) fun _ => only_pure
  refine only_bind (only_ask (hp _ trivial)) fun made => ?_
  split <;> exact only_pure

theorem only_joinGame : RealmProgram.Only p (m.joinGame cfg frame) := by
  unfold joinGame
  refine only_bind (only_ask (hp _ trivial)) fun ip => ?_
  refine only_bind (only_playing hp) fun own => ?_
  have hfailure (reply : Frame) : RealmProgram.Only p (pure reply) := only_pure
  cases own with
  | none => cases cfg.gameServer <;> exact hfailure _
  | some c =>
    cases cfg.gameServer with
    | false => exact only_ite (fun _ => only_pure) fun _ => only_pure
    | true =>
      refine only_ite (fun hdead => ?_) fun hdead => ?_
      · exact only_ite (fun _ => only_pure) fun h => absurd hdead h
      · refine only_bind (only_ask (hp _ trivial)) fun game => ?_
        refine only_ite (fun _ => only_pure) fun _ => ?_
        split
        · exact only_pure
        · refine only_bind (only_ask (hp _ trivial)) fun joined => ?_
          split <;> exact only_pure
        · exact only_pure
        · exact only_pure

end Reads

/-! ## Handlers that change a character -/

section Changes

variable (hp : ∀ q : RealmRequest, q.Reads → p q)

include hp

omit hp in
theorem only_charDelete (hdelete : ∀ account name, p (.deleteCharacter account name)) :
    RealmProgram.Only p (m.charDelete frame) := by
  unfold charDelete
  generalize Reader.scan _ frame = request
  refine only_bind (only_ask (hdelete _ _)) fun deleted => ?_
  split <;> exact only_pure

theorem only_charLogon (hupdate : ∀ c, p (.updateCharacter c)) :
    RealmProgram.Only p (m.charLogon frame) := by
  unfold charLogon
  refine only_bind (only_ownCharacter hp _) fun own => ?_
  cases own with
  | none => exact only_pure
  | some c =>
    refine only_bind (only_ask (hp _ trivial)) fun now => ?_
    exact only_bind (only_ask (hupdate _)) fun _ => only_pure

theorem only_charUpgrade (hupdate : ∀ c, p (.updateCharacter c)) :
    RealmProgram.Only p (m.charUpgrade frame) := by
  unfold charUpgrade
  refine only_bind (only_ask (hp _ trivial)) fun found => ?_
  cases found with
  | none => exact only_pure
  | some c =>
    refine only_ite (fun _ => ?_) fun _ => only_pure
    refine only_ite (fun _ => only_pure) fun _ => ?_
    refine only_bind (only_ask (hupdate _)) fun done => ?_
    split <;> exact only_pure

theorem only_charCreate (hcreate : ∀ c, p (.createCharacter c)) :
    RealmProgram.Only p (m.charCreate cfg frame) := by
  unfold charCreate
  cases Reader.read readCharCreate frame with
  | error e => exact only_pure
  | ok request =>
    refine only_ite (fun _ => only_pure) fun _ => ?_
    refine only_bind (only_ask (hp _ trivial)) fun owned => ?_
    refine only_ite (fun _ => only_pure) fun _ => ?_
    refine only_bind (only_ask (hp _ trivial)) fun now => ?_
    refine only_bind (only_ask (hcreate _)) fun made => ?_
    split <;> exact only_pure

theorem only_handle (hcreate : frame.id = Mcp.Msg.charCreate → ∀ c, p (.createCharacter c))
    (hupdate : frame.id = Mcp.Msg.charLogon ∨ frame.id = Mcp.Msg.charUpgrade →
      ∀ c, p (.updateCharacter c))
    (hdelete : ∀ account name, p (.deleteCharacter account name)) :
    RealmProgram.Only p (m.handle cfg frame) := by
  unfold handle
  refine only_ite (fun _ => only_startup hp) fun _ => ?_
  refine only_ite (fun _ => only_bind (only_charList hp _) fun _ => only_pure) fun _ => ?_
  refine only_ite (fun _ => only_bind (only_charList hp _) fun _ => only_pure) fun _ => ?_
  refine only_ite (fun hid => ?_) fun _ => ?_
  · exact only_bind (only_charCreate hp (hcreate hid)) fun _ => only_pure
  refine only_ite (fun hid => ?_) fun _ => ?_
  · exact only_bind (only_charLogon hp (hupdate (.inl hid))) fun _ => only_pure
  refine only_ite (fun _ => ?_) fun _ => ?_
  · exact only_bind (only_charDelete hdelete) fun _ => only_pure
  refine only_ite (fun hid => ?_) fun _ => ?_
  · exact only_bind (only_charUpgrade hp (hupdate (.inr hid))) fun _ => only_pure
  refine only_ite (fun _ => only_pure) fun _ => ?_
  refine only_ite (fun _ => only_bind (only_gameList hp) fun _ => only_pure) fun _ => ?_
  refine only_ite (fun _ => only_bind (only_gameInfo hp) fun _ => only_pure) fun _ => ?_
  refine only_ite (fun _ => only_bind (only_createGame hp) fun _ => only_pure) fun _ => ?_
  refine only_ite (fun _ => only_bind (only_joinGame hp) fun _ => only_pure) fun _ => ?_
  exact only_ite (fun _ => only_bind (only_ladderData hp) fun _ => only_pure) fun _ => only_pure

end Changes

end Mcp

/-! ## Characters that are made -/

/-- A connection asks to make characters with `p` only. -/
def creating (p : List RealmDeed → Character → Prop) :
    Promise Mcp Frame RealmReply (List Frame) where
  asks log q := ∀ c, q = .createCharacter c → p log c
  tells _ _ := True
  inv _ _ := True

/-- It does where `MCP_CHARCREATE` does. -/
theorem sound_creating {cfg : RealmConfig} {p : List RealmDeed → Character → Prop}
    (hcreate : ∀ (m : Mcp) frame log,
      (m.charCreate cfg frame).Keeps (creating p).watch (fun _ _ => True) log) :
    (creating p).Sound (realm cfg) := by
  intro m log frame _ _
  by_cases hid : frame.id = Mcp.Msg.charCreate
  · show (m.handle cfg frame).Keeps _ _ _
    unfold Mcp.handle
    rw [if_neg (by rw [hid]; decide), if_neg (by rw [hid]; decide), if_neg (by rw [hid]; decide),
      if_pos hid, Asking.keeps_bind]
    exact (hcreate m frame _).mono fun _ _ _ => ⟨trivial, fun _ _ => trivial⟩
  · have honly : RealmProgram.Only (fun q => ∀ c, q ≠ .createCharacter c)
        (m.handle cfg frame) := by
      refine Mcp.only_handle (fun q hq c heq => ?_) (fun h => absurd h hid) ?_ ?_
      · rw [heq] at hq
        exact hq
      · rintro - c c' h
        cases h
      · rintro account name c h
        cases h
    refine Asking.Keeps.mono (honly.follow fun notes q hq c heq => absurd heq (hq c)) ?_
    exact fun _ _ _ => ⟨trivial, fun _ _ => trivial⟩

/-! ## A login -/

/-- A client that logs in by its ticket 7. -/
def startupFrame : Frame :=
  ⟨Mcp.Msg.startup, Writer.u32 0 ++ Writer.u32 0 ++ Writer.u32 7 ++ Writer.u32 0⟩

end CommandCenter.Daemon
