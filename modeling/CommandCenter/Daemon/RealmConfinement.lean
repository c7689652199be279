import CommandCenter.Daemon.RealmServer

/-!
# A realm connection is confined to its account

What a realm connection asks of the node is about the account of the ticket that it had accepted
last (`crates/bnetccd/src/realm.rs`). Names are realm-wide, so a character is found by its name
first, and only then seen to be the account's.

* `confinement`: what a connection may ask for and say, by what it did before.
* `sound_confinement`: every handler keeps to it.
* `answer_owned`: a request that is about one account leaves the others' characters.
* `eval_handle_of_agree`: what is told of an account's characters is told of nothing else.
* `realm_confined`: so it is for every connection in every run.
-/

namespace CommandCenter.Daemon

open Rust Proto D2 Library
open CommandCenter.Core (AccountId)
open Storage (Account Character CharacterStore)

/-! ## What a connection did -/

namespace RealmLog

def ticketAfter (last : Option RealmTicket) : RealmDeed → Option RealmTicket
  | .asked (.realmTicket _ _) answer => Option.or answer last
  | _ => last

def lastTicket (log : List RealmDeed) : Option RealmTicket := log.foldl ticketAfter none

def frameAfter (last : Option Frame) : RealmDeed → Option Frame
  | .took frame => some frame
  | .asked _ _ | .said _ => last

def lastFrame (log : List RealmDeed) : Option Frame := log.foldl frameAfter none

/-- The account of the ticket that was accepted last. -/
def Holds (log : List RealmDeed) (account : AccountId) : Prop :=
  ∃ t, lastTicket log = some t ∧ t.account.id = account

/-- The character was looked up, and it is the account's. -/
def Owns (log : List RealmDeed) (c : Character) : Prop :=
  Holds log c.account ∧ ∃ name, .asked (.characterByName name) (some c) ∈ log

variable {log : List RealmDeed}

@[simp] theorem lastTicket_append (deed : RealmDeed) :
    lastTicket (log ++ [deed]) = ticketAfter (lastTicket log) deed := by
  simp [lastTicket, List.foldl_append]

@[simp] theorem lastFrame_append (deed : RealmDeed) :
    lastFrame (log ++ [deed]) = frameAfter (lastFrame log) deed := by
  simp [lastFrame, List.foldl_append]

def isTicket : RealmRequest → Bool
  | .realmTicket _ _ => true
  | _ => false

theorem ticketAfter_asked {q : RealmRequest} (hq : isTicket q = false) (answer : RealmReply q)
    (last : Option RealmTicket) : ticketAfter last (.asked q answer) = last := by
  cases q with
  | realmTicket id cookie => cases hq
  | _ => rfl

theorem Holds.asked {account : AccountId} (h : Holds log account) {q : RealmRequest}
    (hq : isTicket q = false) (answer : RealmReply q) :
    Holds (log ++ [.asked q answer]) account := by
  obtain ⟨t, hlast, ht⟩ := h
  refine ⟨t, ?_, ht⟩
  rw [lastTicket_append, ticketAfter_asked hq, hlast]

theorem Owns.asked {c : Character} (h : Owns log c) {q : RealmRequest} (hq : isTicket q = false)
    (answer : RealmReply q) : Owns (log ++ [.asked q answer]) c := by
  obtain ⟨hholds, name, hread⟩ := h
  exact ⟨hholds.asked hq answer, name, List.mem_append_left _ hread⟩

end RealmLog

open RealmLog

/-! ## What it may do -/

/-- What a connection that did this much may ask for. -/
def Confined (log : List RealmDeed) : RealmRequest → Prop
  | .createCharacter c | .updateCharacter c => Holds log c.account
  | .deleteCharacter account _ | .characters account => Holds log account
  | .joinGame _ _ account name => ∃ c, Owns log c ∧ c.account = account ∧ c.name = name
  | .createGame _ _ _ settings => ∃ (m : Mcp) (g : Mcp.CreateGame) (creator : Option Character),
      m.ticket = lastTicket log ∧ settings = m.gameSettings g creator ∧ ∀ c ∈ creator, Owns log c
  | .realmTicket _ _ | .nowSecs | .clientFacingIpv4 | .allCharacters | .characterByName _
  | .listGames | .gameInfo _ => True

/-- A game list is of games for a character of the account. -/
def ListsGames (log : List RealmDeed) (out : List Frame) : Prop :=
  ∃ (requestId : UInt16) (offered : List LobbyGame),
    out = offered.map (fun g => ⟨Mcp.Msg.gameList, gamelistBody requestId g⟩) ++
      [⟨Mcp.Msg.gameList, Mcp.gamelistEnd requestId⟩] ∧
    (offered = [] ∨ ∃ c, Owns log c ∧ ∀ g ∈ offered, joinRefusal c g = none)

/-- A connection keeps to its account. -/
def confinement : Promise Mcp Frame RealmReply (List Frame) where
  asks := Confined
  tells log out := ∀ frame, lastFrame log = some frame → frame.id = Mcp.Msg.gameList →
    ListsGames log out
  inv m log := m.ticket = lastTicket log

/-- What holds all the while a frame is handled. -/
def Serving (m : Mcp) (frame : Frame) (log : List RealmDeed) : Prop :=
  m.ticket = lastTicket log ∧ m.ticket.isSome = true ∧ lastFrame log = some frame

/-- What the account of the connection owns, it owns. -/
theorem Serving.holds {m : Mcp} {frame : Frame} {log : List RealmDeed} (h : Serving m frame log) :
    Holds log m.accountId := by
  obtain ⟨hticket, hsome, -⟩ := h
  obtain ⟨t, ht⟩ := Option.isSome_iff_exists.mp hsome
  refine ⟨t, ?_, ?_⟩
  · rw [← hticket, ht]
  · rw [Mcp.accountId, ht]

theorem Serving.asked {m : Mcp} {frame : Frame} {log : List RealmDeed} (h : Serving m frame log)
    {q : RealmRequest} (hq : isTicket q = false) (answer : RealmReply q) :
    Serving m frame (log ++ [.asked q answer]) := by
  obtain ⟨hticket, hsome, hframe⟩ := h
  refine ⟨?_, hsome, ?_⟩
  · rw [lastTicket_append, ticketAfter_asked hq, hticket]
  · rw [lastFrame_append, ← hframe]
    rfl

namespace Mcp

variable {cfg : RealmConfig} {m : Mcp} {frame : Frame} {log : List RealmDeed}

/-- One request of a connection that serves a frame. -/
theorem keeps_ask (q : RealmRequest) (h : Serving m frame log) (hq : isTicket q = false)
    (hasks : Confined log q) : (realmAsk q).Keeps confinement.watch
      (fun answer log' => Serving m frame log' ∧ log' = log ++ [.asked q answer]) log :=
  ⟨hasks, fun answer _ => ⟨h.asked hq answer, rfl⟩⟩

theorem keeps_visibleCharacters (h : Serving m frame log) :
    m.visibleCharacters.Keeps confinement.watch (fun _ log' => Serving m frame log') log := by
  unfold visibleCharacters
  rw [Asking.keeps_bind]
  refine (keeps_ask (.characters m.accountId) h rfl h.holds).mono fun answer log' hanswer => ?_
  split
  · exact hanswer.1
  · exact hanswer.1

theorem keeps_charList (h : Serving m frame log) (withExpiry : Bool) :
    (m.charList frame withExpiry).Keeps confinement.watch
      (fun _ log' => Serving m frame log') log := by
  unfold charList
  rw [Asking.keeps_bind]
  exact (keeps_visibleCharacters h).mono fun _ _ h' => h'

/-- A character found is the account's, as are those found before. -/
structure Found (m : Mcp) (frame : Frame) (log : List RealmDeed) (own : Option Character)
    (log' : List RealmDeed) : Prop where
  serving : Serving m frame log'
  owns : ∀ c ∈ own, Owns log' c
  still : ∀ c, Owns log c → Owns log' c

theorem keeps_ownCharacter (h : Serving m frame log) (name : Text) :
    (m.ownCharacter name).Keeps confinement.watch (Found m frame log) log := by
  unfold ownCharacter
  rw [Asking.keeps_bind]
  refine (keeps_ask (.characterByName name) h rfl trivial).mono fun found log' hfound => ?_
  obtain ⟨h', rfl⟩ := hfound
  refine ⟨h', fun c hc => ?_, fun c hc => hc.asked rfl found⟩
  obtain ⟨hfound, hown⟩ := Option.mem_filter_iff.mp hc
  have haccount : c.account = m.accountId := by simpa using (Bool.and_eq_true_iff.mp hown).1
  refine ⟨?_, name, ?_⟩
  · rw [haccount]
    exact h'.holds
  · rw [Option.mem_def.mp hfound]
    apply List.mem_append_right
    simp

theorem keeps_playing (h : Serving m frame log) :
    m.playing.Keeps confinement.watch (Found m frame log) log := by
  unfold playing
  cases m.selected with
  | none => exact ⟨h, by simp, fun _ hc => hc⟩
  | some selected => exact keeps_ownCharacter h selected

theorem keeps_selectedIsDead (h : Serving m frame log) :
    m.selectedIsDead.Keeps confinement.watch
      (fun _ log' => Serving m frame log' ∧ ∀ c, Owns log c → Owns log' c) log := by
  unfold selectedIsDead
  cases m.selected with
  | none => exact ⟨h, fun _ hc => hc⟩
  | some selected =>
    rw [Asking.keeps_bind]
    exact (keeps_ownCharacter h selected).mono fun _ _ h' => ⟨h'.serving, h'.still⟩

/-- What is left of a handler that may change the character played. -/
def Moved (m : Mcp) (frame : Frame) (r : Frame × Mcp) (log : List RealmDeed) : Prop :=
  Serving m frame log ∧ r.2.ticket = m.ticket

theorem keeps_charCreate (h : Serving m frame log) :
    (m.charCreate cfg frame).Keeps confinement.watch (m.Moved frame) log := by
  unfold charCreate
  split
  · exact ⟨h, rfl⟩
  · rename_i heroClass statusWord name hread
    dsimp only
    split
    · exact ⟨h, rfl⟩
    · rw [Asking.keeps_bind]
      refine (keeps_ask (.characters m.accountId) h rfl h.holds).mono fun owned log₁ h₁ => ?_
      split
      · exact ⟨h₁.1, rfl⟩
      · rw [Asking.keeps_bind]
        refine (keeps_ask .nowSecs h₁.1 rfl trivial).mono fun now log₂ h₂ => ?_
        rw [Asking.keeps_bind]
        refine (keeps_ask (.createCharacter _) h₂.1 rfl ?_).mono fun made log₃ h₃ => ?_
        · exact h₂.1.holds
        · split
          · exact ⟨h₃.1, rfl⟩
          · exact ⟨h₃.1, rfl⟩
          · exact ⟨h₃.1, rfl⟩

theorem keeps_charLogon (h : Serving m frame log) :
    (m.charLogon frame).Keeps confinement.watch (m.Moved frame) log := by
  unfold charLogon
  rw [Asking.keeps_bind]
  refine (keeps_ownCharacter h _).mono fun own log₁ h₁ => ?_
  split
  · rename_i c
    rw [Asking.keeps_bind]
    have howns := h₁.owns c rfl
    refine (keeps_ask .nowSecs h₁.serving rfl trivial).mono fun now log₂ h₂ => ?_
    obtain ⟨hserving, rfl⟩ := h₂
    rw [Asking.keeps_bind]
    refine (keeps_ask (.updateCharacter _) hserving rfl ?_).mono fun _ log₃ h₃ => ?_
    · exact (howns.asked (q := .nowSecs) rfl now).1
    · exact ⟨h₃.1, rfl⟩
  · exact ⟨h₁.serving, rfl⟩

theorem keeps_charDelete (h : Serving m frame log) :
    (m.charDelete frame).Keeps confinement.watch (m.Moved frame) log := by
  unfold charDelete
  generalize Reader.scan _ frame = request
  obtain ⟨requestId, name⟩ := request
  simp only [Asking.keeps_bind]
  refine (keeps_ask (.deleteCharacter m.accountId name) h rfl h.holds).mono
    fun deleted log₁ h₁ => ?_
  split
  · exact ⟨h₁.1, rfl⟩
  · exact ⟨h₁.1, rfl⟩
  · exact ⟨h₁.1, rfl⟩

theorem keeps_charUpgrade (h : Serving m frame log) :
    (m.charUpgrade frame).Keeps confinement.watch (fun _ log' => Serving m frame log') log := by
  unfold charUpgrade
  rw [Asking.keeps_bind]
  refine (keeps_ask (.characterByName _) h rfl trivial).mono fun found log₁ h₁ => ?_
  split
  · rename_i c
    split
    · rename_i hown
      split
      · exact h₁.1
      · rw [Asking.keeps_bind]
        refine (keeps_ask (.updateCharacter _) h₁.1 rfl ?_).mono fun _ log₂ h₂ => ?_
        · show Holds log₁ c.account
          rw [hown.1]
          exact h₁.1.holds
        · split
          · exact h₂.1
          · exact h₂.1
          · exact h₂.1
    · exact h₁.1
  · exact h₁.1

theorem keeps_gameList (h : Serving m frame log) :
    (m.gameList cfg frame).Keeps confinement.watch
      (fun out log' => Serving m frame log' ∧ ListsGames log' out) log := by
  unfold gameList
  generalize Reader.scan _ frame = request
  obtain ⟨requestId, filter⟩ := request
  simp only [Asking.keeps_bind]
  refine (keeps_playing h).mono fun own log₁ h₁ => ?_
  split
  · rename_i c hserver
    rw [Asking.keeps_bind]
    refine (keeps_ask .listGames h₁.serving rfl trivial).mono fun games log₂ h₂ => ?_
    obtain ⟨hserving, rfl⟩ := h₂
    refine ⟨hserving, requestId, _, rfl, .inr ⟨c, ?_, fun g hg => ?_⟩⟩
    · exact (h₁.owns c rfl).asked (q := .listGames) rfl games
    · obtain ⟨-, hlistable⟩ := List.mem_filter.mp (List.mem_of_mem_take hg)
      exact Option.isNone_iff_eq_none.mp (Bool.and_eq_true_iff.mp hlistable).1
  · exact ⟨h₁.serving, requestId, [], rfl, .inl rfl⟩
  · exact ⟨h₁.serving, requestId, [], rfl, .inl rfl⟩

theorem keeps_gameInfo (h : Serving m frame log) :
    (gameInfo cfg frame).Keeps confinement.watch (fun _ log' => Serving m frame log') log := by
  unfold gameInfo
  generalize Reader.scan _ frame = request
  obtain ⟨requestId, name⟩ := request
  dsimp only
  split
  · rw [Asking.keeps_bind]
    exact (keeps_ask (.gameInfo name) h rfl trivial).mono fun _ _ h' => h'.1
  · exact h

theorem keeps_createGame (h : Serving m frame log) :
    (m.createGame cfg frame).Keeps confinement.watch (fun _ log' => Serving m frame log') log := by
  unfold createGame
  generalize Reader.scan _ frame = g
  dsimp only
  rw [Asking.keeps_bind]
  refine (keeps_playing h).mono fun creator log₁ h₁ => ?_
  split
  · exact h₁.serving
  · rw [Asking.keeps_bind]
    refine (keeps_selectedIsDead h₁.serving).mono fun dead log₂ h₂ => ?_
    obtain ⟨h₂, hstill⟩ := h₂
    split
    · exact h₂
    · split
      · rw [Asking.keeps_bind]
        refine (keeps_ask (.createGame _ _ _ _) h₂ rfl ?_).mono fun made log₃ h₃ => ?_
        · exact ⟨m, g, creator, h₂.1, rfl, fun c hc => hstill c (h₁.owns c hc)⟩
        · split
          · exact h₃.1
          · exact h₃.1
          · exact h₃.1
          · exact h₃.1
      · exact h₂

theorem keeps_joinGame (h : Serving m frame log) :
    (m.joinGame cfg frame).Keeps confinement.watch (fun _ log' => Serving m frame log') log := by
  unfold joinGame
  generalize Reader.scan _ frame = j
  dsimp only
  rw [Asking.keeps_bind]
  refine (keeps_ask .clientFacingIpv4 h rfl trivial).mono fun ip log₁ h₁ => ?_
  rw [Asking.keeps_bind]
  refine (keeps_playing h₁.1).mono fun own log₂ h₂ => ?_
  cases own with
  | none => cases cfg.gameServer <;> exact h₂.serving
  | some c =>
    by_cases hdead : isDeadHardcore c = true
    · cases cfg.gameServer <;> simp only [hdead, if_true] <;> exact h₂.serving
    · cases cfg.gameServer with
      | false =>
        simp only [hdead, Bool.false_eq_true, if_false]
        exact h₂.serving
      | true =>
        simp only [hdead, Bool.false_eq_true, if_false, Asking.keeps_bind]
        refine (keeps_ask (.gameInfo j.name) h₂.serving rfl trivial).mono fun game log₃ h₃ => ?_
        obtain ⟨h₃, rfl⟩ := h₃
        rw [Asking.keeps_pure]
        split
        · exact h₃
        · have howns := (h₂.owns c rfl).asked (q := .gameInfo j.name) rfl game
          rw [Asking.keeps_bind]
          refine (keeps_ask (.joinGame _ _ _ _) h₃ rfl ?_).mono fun joined log₄ h₄ => ?_
          · exact ⟨c, howns, rfl, rfl⟩
          · split
            · exact h₄.1
            · exact h₄.1
            · exact h₄.1
        · exact h₃
        · exact h₃

theorem keeps_ladderData (h : Serving m frame log) :
    (m.ladderData frame).Keeps confinement.watch (fun _ log' => Serving m frame log') log := by
  unfold ladderData
  generalize Reader.scan _ frame = request
  obtain ⟨ladder, start⟩ := request
  simp only [Asking.keeps_bind]
  exact (keeps_ask .allCharacters h rfl trivial).mono fun _ _ h' => h'.1

/-! ## A frame -/

theorem tells_of_ne {out : List Frame} (hframe : lastFrame log = some frame)
    (hid : frame.id ≠ Mcp.Msg.gameList) : confinement.tells log out := by
  intro frame' hframe' hid'
  rw [hframe] at hframe'
  obtain rfl := Option.some.inj hframe'
  exact absurd hid' hid

theorem inv_said (h : m.ticket = lastTicket log) (out : List Frame) :
    confinement.inv m (log ++ [.said out]) := by
  show _ = lastTicket _
  rw [lastTicket_append]
  exact h

theorem keeps_startup (hframe : lastFrame log = some frame) (hid : frame.id ≠ Mcp.Msg.gameList) :
    (m.startup frame).Keeps confinement.watch confinement.Handled log := by
  unfold startup
  cases Reader.read readStartup frame with
  | error e => exact ⟨tells_of_ne hframe hid, fun _ h => nomatch h⟩
  | ok request =>
    obtain ⟨cookie, id⟩ := request
    refine ⟨trivial, fun answer _ => ?_⟩
    have hframe' : lastFrame (log ++ [.asked (.realmTicket id cookie) answer]) = some frame := by
      rw [lastFrame_append, ← hframe]
      rfl
    cases answer with
    | none => exact ⟨tells_of_ne hframe' hid, fun _ h => nomatch h⟩
    | some t =>
      refine ⟨tells_of_ne hframe' hid, fun s hs => ?_⟩
      obtain rfl := Option.some.inj hs
      apply inv_said
      show _ = lastTicket (log ++ [_])
      rw [lastTicket_append]
      rfl

theorem handled_one {reply : RealmProgram Frame}
    (h : reply.Keeps confinement.watch (fun _ log' => Serving m frame log') log)
    (hid : frame.id ≠ Mcp.Msg.gameList) :
    (do return ([← reply], some m) : RealmProgram (List Frame × Option Mcp)).Keeps
      confinement.watch confinement.Handled log := by
  rw [Asking.keeps_bind]
  refine h.mono fun reply log' h' => ⟨tells_of_ne h'.2.2 hid, fun s hs => ?_⟩
  obtain rfl := Option.some.inj hs
  exact inv_said h'.1 _

theorem handled_moving {reply : RealmProgram (Frame × Mcp)}
    (h : reply.Keeps confinement.watch (m.Moved frame) log)
    (hid : frame.id ≠ Mcp.Msg.gameList) :
    (do
      let (reply, m) ← reply
      return ([reply], some m) : RealmProgram (List Frame × Option Mcp)).Keeps
      confinement.watch confinement.Handled log := by
  rw [Asking.keeps_bind]
  refine h.mono fun r log' h' => ⟨tells_of_ne h'.1.2.2 hid, fun s hs => ?_⟩
  obtain rfl := Option.some.inj hs
  exact inv_said (h'.2.trans h'.1.1) _

theorem keeps_handle (hticket : m.ticket = lastTicket log) (haccepts : m.accepts frame = true) :
    (m.handle cfg frame).Keeps confinement.watch confinement.Handled (log ++ [.took frame]) := by
  have hframe : lastFrame (log ++ [.took frame]) = some frame := lastFrame_append _
  have hticket' : m.ticket = lastTicket (log ++ [.took frame]) := by
    rw [lastTicket_append]
    exact hticket
  have hserving (hid : frame.id ≠ Mcp.Msg.startup) : Serving m frame (log ++ [.took frame]) := by
    refine ⟨hticket', ?_, hframe⟩
    simpa [accepts, hid] using haccepts
  unfold handle
  refine Asking.keeps_ite (fun hid => ?_) fun hstartup => ?_
  · exact keeps_startup hframe (by rw [hid]; decide)
  have h := hserving hstartup
  refine Asking.keeps_ite (fun hid => ?_) fun _ => ?_
  · exact handled_one (keeps_charList h true) (by rw [hid]; decide)
  refine Asking.keeps_ite (fun hid => ?_) fun _ => ?_
  · exact handled_one (keeps_charList h false) (by rw [hid]; decide)
  refine Asking.keeps_ite (fun hid => ?_) fun _ => ?_
  · exact handled_moving (keeps_charCreate h) (by rw [hid]; decide)
  refine Asking.keeps_ite (fun hid => ?_) fun _ => ?_
  · exact handled_moving (keeps_charLogon h) (by rw [hid]; decide)
  refine Asking.keeps_ite (fun hid => ?_) fun _ => ?_
  · exact handled_moving (keeps_charDelete h) (by rw [hid]; decide)
  refine Asking.keeps_ite (fun hid => ?_) fun _ => ?_
  · exact handled_one (keeps_charUpgrade h) (by rw [hid]; decide)
  refine Asking.keeps_ite (fun hid => ?_) fun _ => ?_
  · exact handled_one (Asking.keeps_pure.mpr h) (by rw [hid]; decide)
  refine Asking.keeps_ite (fun _ => ?_) fun hlist => ?_
  · rw [Asking.keeps_bind]
    refine (keeps_gameList h).mono fun out log' h' => ⟨fun _ _ _ => h'.2, fun s hs => ?_⟩
    obtain rfl := Option.some.inj hs
    exact inv_said h'.1.1 _
  refine Asking.keeps_ite (fun _ => ?_) fun _ => ?_
  · exact handled_one (keeps_gameInfo h) hlist
  refine Asking.keeps_ite (fun _ => ?_) fun _ => ?_
  · exact handled_one (keeps_createGame h) hlist
  refine Asking.keeps_ite (fun _ => ?_) fun _ => ?_
  · exact handled_one (keeps_joinGame h) hlist
  refine Asking.keeps_ite (fun _ => ?_) fun _ => ?_
  · exact handled_one (keeps_ladderData h) hlist
  · refine ⟨tells_of_ne hframe hlist, fun s hs => ?_⟩
    obtain rfl := Option.some.inj hs
    exact inv_said hticket' _

end Mcp

/-- Every handler keeps to the account. -/
theorem sound_confinement (cfg : RealmConfig) : confinement.Sound (realm cfg) :=
  fun _ _ _ hticket haccepts => Mcp.keeps_handle hticket haccepts

/-! ## What is about one account -/

/-- A request that a connection may make leaves the characters of the other accounts. -/
theorem answer_owned {log : List RealmDeed} {q : RealmRequest} (h : Confined log q)
    {b : AccountId} (hb : ¬ Holds log b) (n : RealmNode) (x : Outside) :
    (n.answer x q).2.store.owned b = n.store.owned b := by
  have hne {account : AccountId} (hholds : Holds log account) : b ≠ account :=
    fun heq => hb (heq ▸ hholds)
  cases q with
  | createCharacter c =>
    cases hfault : x.fault with
    | some why => simp [RealmNode.answer, hfault]
    | none =>
      simp only [RealmNode.answer, hfault]
      exact CharacterStore.owned_createCharacter_of_ne (hne h)
  | updateCharacter c =>
    cases hfault : x.fault with
    | some why => simp [RealmNode.answer, hfault]
    | none =>
      simp only [RealmNode.answer, hfault]
      exact CharacterStore.owned_updateCharacter_of_ne (hne h)
  | deleteCharacter account name =>
    cases hfault : x.fault with
    | some why => simp [RealmNode.answer, hfault]
    | none =>
      simp only [RealmNode.answer, hfault]
      exact CharacterStore.owned_deleteCharacter_of_ne (hne h)
  | characters account => cases hfault : x.fault <;> simp [RealmNode.answer, hfault]
  | _ => rfl

namespace Mcp

variable {cfg : RealmConfig} {m : Mcp} {frame : Frame} {n n' : RealmNode} {x x' : Outside}

theorem answer_characters_of_agree (hagree : n.store.owned m.accountId = n'.store.owned m.accountId)
    (hfault : x.fault = x'.fault) :
    (n.answer x (.characters m.accountId)).1 = (n'.answer x' (.characters m.accountId)).1 := by
  cases hx : x.fault with
  | some why => simp [RealmNode.answer, ← hfault, hx]
  | none =>
    simp only [RealmNode.answer, ← hfault, hx, CharacterStore.characters_eq, hagree]

theorem answer_deleteCharacter_of_agree
    (hagree : n.store.owned m.accountId = n'.store.owned m.accountId)
    (hfault : x.fault = x'.fault) (name : Text) :
    (n.answer x (.deleteCharacter m.accountId name)).1 =
      (n'.answer x' (.deleteCharacter m.accountId name)).1 := by
  cases hx : x.fault with
  | some why => simp [RealmNode.answer, ← hfault, hx]
  | none =>
    simp only [RealmNode.answer, ← hfault, hx, CharacterStore.deleteCharacter_fst, hagree]

theorem ownCharacter_of_agree (hagree : n.store.owned m.accountId = n'.store.owned m.accountId)
    (hfault : x.fault = x'.fault) (name : Text) :
    Option.filter (fun c => c.account == m.accountId && m.canUse c)
        (n.answer x (.characterByName name)).1 =
      Option.filter (fun c => c.account == m.accountId && m.canUse c)
        (n'.answer x' (.characterByName name)).1 := by
  cases hx : x.fault with
  | some why => simp [RealmNode.answer, ← hfault, hx]
  | none =>
    have hfind (n : RealmNode) (x : Outside) (hx : x.fault = none) :
        Option.filter (fun c => c.account == m.accountId && m.canUse c)
            (n.answer x (.characterByName name)).1 =
          ((n.store.owned m.accountId).find? fun c => c.name.eqIgnoreAsciiCase name).filter
            m.canUse := by
      simp only [RealmNode.answer, hx, Option.isSome_none, Bool.false_eq_true, if_false]
      exact CharacterStore.filter_find? n.store m.accountId name m.canUse
    rw [hfind n x hx, hfind n' x' (hfault ▸ hx), hagree]

section Agreeing

variable {nodes nodes' : Nat → RealmNode} {outside outside' : Nat → Outside}

theorem eval_charList_of_agree
    (hagree : ∀ k, (nodes k).store.owned m.accountId = (nodes' k).store.owned m.accountId)
    (hfault : ∀ k, (outside k).fault = (outside' k).fault) (withExpiry : Bool) :
    (m.charList frame withExpiry).eval (fun k q => ((nodes k).answer (outside k) q).1) =
      (m.charList frame withExpiry).eval fun k q => ((nodes' k).answer (outside' k) q).1 := by
  have hsame := answer_characters_of_agree (hagree 0) (hfault 0)
  unfold charList visibleCharacters
  simp only [bind, Asking.bind, realmAsk, Asking.request, Asking.eval, hsame]
  split <;> rfl

theorem eval_charLogon_of_agree
    (hagree : ∀ k, (nodes k).store.owned m.accountId = (nodes' k).store.owned m.accountId)
    (hfault : ∀ k, (outside k).fault = (outside' k).fault) :
    ((m.charLogon frame).eval fun k q => ((nodes k).answer (outside k) q).1) =
      (m.charLogon frame).eval fun k q => ((nodes' k).answer (outside' k) q).1 := by
  have hsame := ownCharacter_of_agree (hagree 0) (hfault 0) (Reader.scan text frame)
  unfold charLogon ownCharacter
  simp only [bind, Asking.bind, realmAsk, Asking.request, Asking.eval, pure, hsame]
  split <;> rfl

theorem eval_charDelete_of_agree
    (hagree : ∀ k, (nodes k).store.owned m.accountId = (nodes' k).store.owned m.accountId)
    (hfault : ∀ k, (outside k).fault = (outside' k).fault) :
    ((m.charDelete frame).eval fun k q => ((nodes k).answer (outside k) q).1) =
      (m.charDelete frame).eval fun k q => ((nodes' k).answer (outside' k) q).1 := by
  unfold charDelete
  generalize Reader.scan _ frame = request
  obtain ⟨requestId, name⟩ := request
  have hsame := answer_deleteCharacter_of_agree (hagree 0) (hfault 0) name
  simp only [bind, Asking.bind, realmAsk, Asking.request, Asking.eval, hsame]
  split <;> rfl

theorem eval_moving_of_eq {reply : RealmProgram (Frame × Mcp)}
    {answers answers' : Nat → (q : RealmRequest) → RealmReply q}
    (h : reply.eval answers = reply.eval answers') :
    (do
      let (reply, m) ← reply
      return ([reply], some m) : RealmProgram (List Frame × Option Mcp)).eval answers =
    (do
      let (reply, m) ← reply
      return ([reply], some m) : RealmProgram (List Frame × Option Mcp)).eval answers' := by
  have hmoving (answers : Nat → (q : RealmRequest) → RealmReply q) :
      (do
        let (reply, m) ← reply
        return ([reply], some m) : RealmProgram (List Frame × Option Mcp)).eval answers =
      ([(reply.eval answers).1], some (reply.eval answers).2) :=
    Asking.eval_bind_pure (f := fun r : Frame × Mcp => ([r.1], some r.2))
  rw [hmoving, hmoving, h]

/-- Two stores with the same characters of the account are told apart by no reply about them. -/
theorem eval_handle_of_agree
    (hid : frame.id = Mcp.Msg.charList2 ∨ frame.id = Mcp.Msg.charList ∨
      frame.id = Mcp.Msg.charLogon ∨ frame.id = Mcp.Msg.charDelete)
    (hagree : ∀ k, (nodes k).store.owned m.accountId = (nodes' k).store.owned m.accountId)
    (hfault : ∀ k, (outside k).fault = (outside' k).fault) :
    ((m.handle cfg frame).eval fun k q => ((nodes k).answer (outside k) q).1) =
      (m.handle cfg frame).eval fun k q => ((nodes' k).answer (outside' k) q).1 := by
  unfold handle
  rcases hid with hid | hid | hid | hid
  · rw [if_neg (by rw [hid]; decide), if_pos hid, Asking.eval_bind_pure, Asking.eval_bind_pure,
      eval_charList_of_agree hagree hfault]
  · rw [if_neg (by rw [hid]; decide), if_neg (by rw [hid]; decide), if_pos hid,
      Asking.eval_bind_pure, Asking.eval_bind_pure, eval_charList_of_agree hagree hfault]
  · rw [if_neg (by rw [hid]; decide), if_neg (by rw [hid]; decide), if_neg (by rw [hid]; decide),
      if_neg (by rw [hid]; decide), if_pos hid]
    exact eval_moving_of_eq (eval_charLogon_of_agree hagree hfault)
  · rw [if_neg (by rw [hid]; decide), if_neg (by rw [hid]; decide), if_neg (by rw [hid]; decide),
      if_neg (by rw [hid]; decide), if_neg (by rw [hid]; decide), if_pos hid]
    exact eval_moving_of_eq (eval_charDelete_of_agree hagree hfault)

end Agreeing

end Mcp

/-! ## Tickets -/

/-- Every ticket that is live, or was accepted, was minted. -/
def TicketsOf (minted : UInt64 → RealmTicket → Prop) (w : RealmWorld) : Prop :=
  (∀ id t, w.node.tickets.lookup id = some t → minted id t) ∧
    ∀ i id cookie t, (i, .asked (.realmTicket id cookie) (some t)) ∈ w.log → minted id t

theorem answer_tickets (n : RealmNode) (x : Outside) (q : RealmRequest) :
    (n.answer x q).2.tickets = n.tickets := by
  cases q <;> cases hfault : x.fault <;> simp [RealmNode.answer, hfault]

theorem lookup_change {n : RealmNode} {change : RealmNode.Change} {id : UInt64} {t : RealmTicket}
    (h : (n.change change).tickets.lookup id = some t) :
    n.tickets.lookup id = some t ∨ change = .mintRealmTicket id t := by
  cases change with
  | mintRealmTicket id' t' =>
    rw [RealmNode.change] at h
    split at h
    · exact .inl h
    · by_cases hid : id = id'
      · subst hid
        rw [Finmap.lookup_insert] at h
        obtain rfl := Option.some.inj h
        exact .inr rfl
      · rw [Finmap.lookup_insert_of_ne _ hid] at h
        exact .inl h
  | revokeRealmTicket id' =>
    have h : (n.tickets.erase id').lookup id = some t := h
    by_cases hid : id = id'
    · subst hid
      rw [Finmap.lookup_erase] at h
      cases h
    · rw [Finmap.lookup_erase_ne hid] at h
      exact .inl h
  | createAccount req | deleteUser account | endLadderSeason => exact .inl h

theorem ticketsOf_step (cfg : RealmConfig) {minted : UInt64 → RealmTicket → Prop} {w : RealmWorld}
    {event : RealmEvent} (h : TicketsOf minted w)
    (hevent : ∀ id t, event = .other (.mintRealmTicket id t) → minted id t) :
    TicketsOf minted ((realm cfg).step w event) := by
  refine ⟨fun id t ht => ?_, fun i id cookie t ht => ?_⟩
  · rcases (realm cfg).step_node (w := w) event with
      hnode | ⟨i, x, q, -, -, hnode⟩ | ⟨e, rfl, hnode⟩
    · rw [hnode] at ht
      exact h.1 id t ht
    · rw [hnode] at ht
      exact h.1 id t ((congrArg (Finmap.lookup id) (answer_tickets w.node x q)).symm.trans ht)
    · rw [hnode] at ht
      rcases lookup_change ht with ht | rfl
      · exact h.1 id t ht
      · exact hevent id t rfl
  · rcases (realm cfg).step_asked ht with ht | ⟨x, -, -, hanswer⟩
    · exact h.2 i id cookie t ht
    · have hanswer : some t = w.node.realmTicket id cookie := hanswer
      exact h.1 id t (Option.mem_filter_iff.mp (Option.mem_def.mpr hanswer.symm)).1

/-! ## Runs -/

/-- A realm where nobody has logged in. -/
def RealmWorld.opened (store : CharacterStore) : RealmWorld := RealmWorld.new ⟨store, ∅⟩

section Run

variable (cfg : RealmConfig) (store : CharacterStore) (events : List RealmEvent)

theorem confinement_kept :
    confinement.Kept (run (realm cfg).step (RealmWorld.opened store) events) := by
  have hnew : confinement.inv ⟨none, none⟩ [] := rfl
  exact (sound_confinement cfg).run (Promise.kept_new hnew) events

theorem ticketsOf_run :
    TicketsOf (fun id t => Service.Event.other (.mintRealmTicket id t) ∈ events)
      (run (realm cfg).step (RealmWorld.opened store) events) := by
  have hevents : Along (realm cfg).step (fun _ event => event ∈ events)
      (RealmWorld.opened store) events := along_of_forall fun _ h _ => h
  refine (Along.always (fun w event hw hevent => ?_) ?_ hevents).last
  · refine ticketsOf_step cfg hw fun id t heq => ?_
    rw [← heq]
    exact hevent
  · refine ⟨fun id t h => ?_, fun i id cookie t h => nomatch h⟩
    have h : (∅ : Map UInt64 RealmTicket).lookup id = some t := h
    rw [Finmap.lookup_empty] at h
    cases h

/-- What holds of a realm after a run. -/
structure ConfinedAfter (w : RealmWorld) : Prop where
  /-- A connection asks only about the account of the ticket that it had accepted last. -/
  asks : ∀ i before q answer, before ++ [.asked q answer] <+: deeds w.log i → Confined before q
  /-- A game list is of games for a character of it. -/
  lists : ∀ i before out frame, before ++ [.said out] <+: deeds w.log i →
    lastFrame before = some frame → frame.id = Mcp.Msg.gameList → ListsGames before out
  /-- A ticket that was accepted was minted. -/
  minted : ∀ i id cookie t, .asked (.realmTicket id cookie) (some t) ∈ deeds w.log i →
    .other (.mintRealmTicket id t) ∈ events
  /-- What a connection does leaves the characters of the others as they were. -/
  others : ∀ i x account, ¬ Holds (deeds w.log i) account →
    ((realm cfg).step w (.turn i x)).node.store.owned account = w.node.store.owned account
  /-- What it is told is the same in any two stores that agree on the account's characters. -/
  alike : ∀ i m account, w.sessions i = .idle m → Holds (deeds w.log i) account →
    ∀ frame : Frame,
      frame.id = Mcp.Msg.charList2 ∨ frame.id = Mcp.Msg.charList ∨ frame.id = Mcp.Msg.charLogon ∨
        frame.id = Mcp.Msg.charDelete →
      ∀ (nodes nodes' : Nat → RealmNode) (outside outside' : Nat → Outside),
        (∀ k, (nodes k).store.owned account = (nodes' k).store.owned account) →
        (∀ k, (outside k).fault = (outside' k).fault) →
        ((m.handle cfg frame).eval fun k q => ((nodes k).answer (outside k) q).1).1 =
          ((m.handle cfg frame).eval fun k q => ((nodes' k).answer (outside' k) q).1).1

/-- **Realm connections are confined to their account**, in every run. -/
theorem realm_confined : ConfinedAfter cfg events
    (run (realm cfg).step (RealmWorld.opened store) events) := by
  have hkept := confinement_kept cfg store events
  generalize hw : run (realm cfg).step (RealmWorld.opened store) events = w at hkept
  refine ⟨fun i before q answer hprefix => (hkept i).2 before _ hprefix,
    fun i before out frame hprefix hframe hid => (hkept i).2 before _ hprefix frame hframe hid,
    fun i id cookie t hasked => ?_, fun i x account hother => ?_, ?_⟩
  · exact (hw ▸ ticketsOf_run cfg store events).2 i id cookie t (mem_deeds.mp hasked)
  · rcases (realm cfg).step_node (w := w) (.turn i x) with
      hnode | ⟨i', x', q, heq, hq, hnode⟩ | ⟨e, heq, -⟩
    · rw [hnode]
    · cases heq
      rw [hnode]
      exact answer_owned (hkept.asking hq) hother w.node x
    · cases heq
  · intro i m account hidle hholds frame hid nodes nodes' outside outside' hagree hfault
    have hticket : m.ticket = lastTicket (deeds w.log i) := by
      have hi := (hkept i).1
      rw [hidle] at hi
      exact hi
    obtain ⟨t, hlast, haccount⟩ := hholds
    have hm : m.accountId = account := by
      rw [Mcp.accountId, hticket, hlast]
      exact haccount
    subst hm
    rw [Mcp.eval_handle_of_agree hid hagree hfault]

end Run

end CommandCenter.Daemon
