import CommandCenter.Daemon.Chat
import CommandCenter.Daemon.Fanout

/-!
# What a step of chat can do

Every step is one of the moves below, whichever handler takes it. A move says what becomes of the
node and of the session that moves; what other sessions are sent is left as the delivery it is.

* `step_moves`: the moves are all there is.
-/

namespace CommandCenter.Daemon

open Rust CommandCenter.Core Proto

/-- An event that tells nothing of who is in a channel. -/
def aside (event : ChatEvent) : Bool :=
  match event.event with
  | .channel | .showUser | .join | .leave => false
  | _ => true

/-- Whether a kick or a ban by the account removes the session shown as `target`. -/
def Inner.mayRemove {Out : Type} (inner : Inner Out) (key : Key) (actor : AccountId)
    (target : Text) : Bool :=
  (inner.channels.lookup key).any (·.mayRemove actor target)

/-- The step starts a join, of the channel that the name leads to. -/
def Asks (cfg : NodeConfig) (w : World) (action : Action) (sid : SessionId)
    (asked requested : List UInt8) : Prop :=
  (w.sessions sid).handler = .idle ∧ requested = (w.sessions sid).redirect cfg asked ∧
    ∃ input, action = .start sid input ∧ input.asks = some asked

/-- A session that rests where it is, or that finds itself outside its channel. -/
structure Rests (cfg : NodeConfig) (w : World) (action : Action) (sid : SessionId)
    (s s' : ChatSession) : Prop where
  displayName : s'.displayName = s.displayName
  inbox : ∃ events, s'.inbox = s.inbox ++ events ∧ ∀ event ∈ events, aside event = true
  channel : s'.channel = s.channel ∨
    s'.channel = none ∧ ∃ key, s.channel = some key ∧ w.inner.isMember key s.displayName = false
  before : s.handler = .idle ∨ ∃ asked requested, s.handler = .joining asked requested
  after : s'.handler = .idle ∨
    (∃ key event exclude, s'.handler = .speaking key event exclude ∧ aside event = true) ∨
    s'.channel = none ∧
      ((∃ asked requested, s'.handler = .joining asked requested ∧
        Asks cfg w action sid asked requested) ∨
      (∃ chatName, s'.handler = .unnaming chatName) ∨ s'.handler = .releasing)

theorem Rests.silent {cfg : NodeConfig} {w : World} {action : Action} {sid : SessionId}
    {s s' : ChatSession} (hname : s'.displayName = s.displayName)
    (hinbox : s'.inbox = s.inbox) (hchannel : s'.channel = s.channel) (hidle : s.handler = .idle)
    (hafter : s'.handler = .idle ∨
      (∃ key event exclude, s'.handler = .speaking key event exclude ∧ aside event = true) ∨
      s'.channel = none ∧
        ((∃ asked requested, s'.handler = .joining asked requested ∧
          Asks cfg w action sid asked requested) ∨
        (∃ chatName, s'.handler = .unnaming chatName) ∨ s'.handler = .releasing)) :
    Rests cfg w action sid s s' :=
  ⟨hname, ⟨[], hinbox.trans (List.append_nil _).symm, nofun⟩, Or.inl hchannel, Or.inl hidle, hafter⟩

inductive Moves (cfg : NodeConfig) (w : World) : Action → World → Prop
  | stays (action : Action) : Moves cfg w action w
  | rests (action : Action) (sid : SessionId) (inner : Inner SessionId) (s : ChatSession)
      (hkeeps : w.inner.Keeps inner) (hok : inner.Ok cfg)
      (hs : Rests cfg w action sid (w.sessions sid) s) :
      Moves cfg w action ({ w with inner }.setSession sid s)
  | claims (action : Action) (sid : SessionId) (base : Text) (s : ChatSession)
      (hbefore : (w.sessions sid).handler = .offline ∧ action.logsOn = some sid ∨
        ∃ chatName, (w.sessions sid).handler = .claiming chatName)
      (hname : s.displayName = (w.names.claimName base).1) (hhandler : s.handler = .idle) :
      Moves cfg w action ({ w with names := (w.names.claimName base).2 }.setSession sid s)
  | releases (action : Action) (sid : SessionId) (handler : Handler)
      (hbefore : (∃ chatName, (w.sessions sid).handler = .unnaming chatName ∧
        handler = .claiming chatName) ∨ (w.sessions sid).handler = .releasing ∧ handler = .closed) :
      Moves cfg w action (w.releaseName sid handler)
  | leaves (action : Action) (sid : SessionId) (key : Key) (next : AfterLeave) (s : ChatSession)
      (hbefore : (w.sessions sid).handler = .idle) (hchannel : (w.sessions sid).channel = some key)
      (hname : s.displayName = (w.sessions sid).displayName)
      (hinbox : s.inbox = (w.sessions sid).inbox) (hnone : s.channel = none)
      (hhandler : s.handler = .noticeLeave key next)
      (hasks : ∀ asked requested, next = .join asked requested →
        Asks cfg w action sid asked requested) :
      Moves cfg w action
        ({ w with inner := (w.inner.leaveChannel key s.displayName).2 }.setSession sid s)
  | notices (action : Action) (sid : SessionId) (key : Key) (next : AfterLeave)
      (hbefore : (w.sessions sid).handler = .noticeLeave key next) :
      Moves cfg w action
        ({ w with inner := w.inner.enqueueLeave key (w.sessions sid).leaveEvent }.setSession sid
          { w.sessions sid with handler := next.handler })
  | joins (action : Action) (sid : SessionId) (asked requested : List UInt8) (flags : UInt32)
      (c : Channel) (joiner : Joiner SessionId) (joined : JoinedChannel) (inner : Inner SessionId)
      (hbefore : (w.sessions sid).handler = .joining asked requested)
      (hname : joiner.displayName = (w.sessions sid).displayName) (hout : joiner.out = sid)
      (hc : c = (w.inner.channels.lookup (normalizeChannelName requested)).getD
        (newChannel cfg (normalizeChannelName requested) (Text.fromUtf8Lossy requested).trim))
      (habsent : joiner.displayName.toAsciiLowercase ∉ c.names)
      (hkey : joined.key = normalizeChannelName requested) (hdisplay : joined.display = c.display)
      (hroom : w.inner.Replaces (normalizeChannelName requested)
        ⟨some (c.enter joiner.account joiner.displayName joiner.baseFlags joiner.statstring),
          some (((w.inner.room (normalizeChannelName requested)).subscribers.getD []) ++
            [(joiner.displayName, joiner.out)]),
          (w.inner.room (normalizeChannelName requested)).pending⟩ inner) :
      Moves cfg w action ({ w with inner }.setSession sid
        { w.sessions sid with
          flags
          channel := some joined.key
          handler := .showing asked joined (occupants c) })
  | shows (action : Action) (sid : SessionId) (asked : List UInt8) (joined : JoinedChannel)
      (existing : List ChannelOccupant)
      (hbefore : (w.sessions sid).handler = .showing asked joined existing) :
      Moves cfg w action (w.setSession sid
        ({ w.sessions sid with handler := .arriving asked joined }.receive
          ((w.sessions sid).snapshot joined existing)))
  | arrives (ignores : SessionId → Text → Bool) (sid : SessionId) (asked : List UInt8)
      (joined : JoinedChannel) (events : List ChatEvent)
      (hbefore : (w.sessions sid).handler = .arriving asked joined)
      (haside : ∀ event ∈ events, aside event = true) :
      Moves cfg w (.resume sid ignores)
        (let sent := w.inner.broadcast ⟨fun _ => false, ignores⟩ joined.key
            (w.sessions sid).joinEvent (some (w.sessions sid).displayName) none
        let w' := { w with inner := sent.2.2 }.deliver sent.2.1
        w'.setSession sid ({ w'.sessions sid with handler := .idle }.receive events))
  | speaks (ignores : SessionId → Text → Bool) (sid : SessionId) (key : Key) (event : ChatEvent)
      (exclude base : Option Text)
      (hbefore : (w.sessions sid).handler = .speaking key event exclude) :
      Moves cfg w (.resume sid ignores)
        (let sent := w.inner.broadcast ⟨fun _ => false, ignores⟩ key event exclude base
        let w' := { w with inner := sent.2.2 }.deliver sent.2.1
        w'.setSession sid { w'.sessions sid with handler := .idle })
  | removes (raw : List UInt8) (muted : Bool) (found : Option AccountId) (sid : SessionId)
      (key : Key) (target : Text) (targetOut : Option SessionId) (verb : Text)
      (inner : Inner SessionId)
      (hbefore : (w.sessions sid).handler = .idle) (hchannel : (w.sessions sid).channel = some key)
      (hcommand : (Command.ofLine raw).removes = some target)
      (hmay : w.inner.mayRemove key (w.sessions sid).account target = true)
      (hremoved : w.inner.Removed key target inner) :
      Moves cfg w (.start sid (.chatCommand raw muted found)) ({ w with inner }.setSession sid
        { w.sessions sid with handler := .noticeRemoval key target targetOut verb })
  | tells (action : Action) (sid : SessionId) (key : Key) (target : Text)
      (targetOut : Option SessionId) (verb : Text) (sent : List (Delivery SessionId))
      (events : List ChatEvent)
      (hbefore : (w.sessions sid).handler = .noticeRemoval key target targetOut verb)
      (hsent : ∀ d ∈ sent, ∀ event ∈ d.2, aside event = true)
      (hevents : ∀ event ∈ events, aside event = true) :
      Moves cfg w action
        (let w' := w.deliver sent
        { w' with inner := w.inner.enqueueLeave key ⟨.leave, 0, target, []⟩ }.setSession sid
          ({ w'.sessions sid with handler := .idle }.receive events))
  | flushes (walk : Map.Walk Key (List ChatEvent)) :
      Moves cfg w (.flushPending walk)
        ({ w with inner := (w.inner.flushPending walk).2 }.deliver (w.inner.flushPending walk).1)

/-! ## Handlers that start -/

namespace World

variable {cfg : NodeConfig} {w : World} {sid : SessionId} {action : Action}

theorem moves_rests {s : ChatSession} (hok : w.inner.Ok cfg)
    (hs : Rests cfg w action sid (w.sessions sid) s) :
    Moves cfg w action (w.setSession sid s) :=
  .rests action sid w.inner s (.refl _) hok hs

theorem rests_reply {event : EventId} {text : String} (hidle : (w.sessions sid).handler = .idle)
    (haside : aside ⟨event, 0, [], Text.asBytes text.toList⟩ = true) :
    Rests cfg w action sid (w.sessions sid) ((w.sessions sid).reply event text) := by
  exact ⟨rfl, ⟨_, rfl, List.forall_mem_singleton.mpr haside⟩, Or.inl rfl, Or.inl hidle,
    Or.inl hidle⟩

theorem moves_reply {event : EventId} {text : String} (hok : w.inner.Ok cfg)
    (hidle : (w.sessions sid).handler = .idle)
    (haside : aside ⟨event, 0, [], Text.asBytes text.toList⟩ = true) :
    Moves cfg w action (w.setSession sid ((w.sessions sid).reply event text)) :=
  moves_rests hok (rests_reply hidle haside)

theorem moves_leaveCurrent {key : Key} {next : AfterLeave}
    (hidle : (w.sessions sid).handler = .idle) (hchannel : (w.sessions sid).channel = some key)
    (hasks : ∀ asked requested, next = .join asked requested →
      Asks cfg w action sid asked requested) :
    Moves cfg w action (w.leaveCurrent sid key next) :=
  .leaves action sid key next
    { w.sessions sid with channel := none, handler := .noticeLeave key next }
    hidle hchannel rfl rfl rfl rfl hasks

theorem moves_doJoin (hok : w.inner.Ok cfg) (hidle : (w.sessions sid).handler = .idle)
    {asked : List UInt8} {input : Input} (haction : action = .start sid input)
    (hasks : input.asks = some asked) : Moves cfg w action (w.doJoin cfg sid asked) := by
  unfold doJoin
  dsimp only
  split
  · rename_i prev hprev
    split
    · exact .stays action
    · refine moves_leaveCurrent hidle hprev ?_
      rintro _ _ ⟨⟩
      exact ⟨hidle, rfl, input, haction, hasks⟩
  · rename_i hnone
    refine moves_rests hok (.silent rfl rfl rfl hidle ?_)
    exact Or.inr (Or.inr ⟨hnone, Or.inl ⟨_, _, rfl, hidle, rfl, input, haction, hasks⟩⟩)

theorem moves_ensureMember {key : Key} {handler : Handler} (hok : w.inner.Ok cfg)
    (hidle : (w.sessions sid).handler = .idle) (hchannel : (w.sessions sid).channel = some key)
    (hhandler : handler = .idle ∨
      ∃ event exclude, handler = .speaking key event exclude ∧ aside event = true) :
    Moves cfg w action (w.ensureMember sid key handler) := by
  unfold ensureMember
  dsimp only
  split
  · refine moves_rests hok (.silent rfl rfl rfl hidle ?_)
    rcases hhandler with rfl | ⟨event, exclude, rfl, haside⟩
    · exact Or.inl rfl
    · exact Or.inr (Or.inl ⟨key, event, exclude, rfl, haside⟩)
  · rename_i hmember
    exact moves_rests hok ⟨rfl, ⟨_, rfl, List.forall_mem_singleton.mpr rfl⟩,
      Or.inr ⟨rfl, key, hchannel, Bool.eq_false_iff.mpr hmember⟩, Or.inl hidle, Or.inl hidle⟩

theorem mayRemove_of_removeByOperator {inner : Inner SessionId} {key : Key} {actor : AccountId}
    {name : Text} {action : Channel → Except OpError LeaveOutcome × Channel}
    (hmay : ∀ c out, (action c).1 = .ok out → c.mayRemove actor name = true)
    {out : Option SessionId} {op : Option AccountId}
    (h : (inner.removeByOperator key name action).1 = .ok out op) :
    inner.mayRemove key actor name = true := by
  unfold Inner.removeByOperator at h
  unfold Inner.mayRemove
  split at h
  · cases h
  · rename_i c hc
    rw [hc, Option.any_some]
    split at h
    · rename_i e _ _
      cases e <;> cases h
    · rename_i outcome c' hact
      exact hmay c outcome (by rw [hact])

theorem mayRemove_of_channelKick {inner : Inner SessionId} {key : Key} {actor : AccountId}
    {name : Text} {out : Option SessionId} {op : Option AccountId}
    (h : (inner.channelKick key actor name).1 = .ok out op) :
    inner.mayRemove key actor name = true :=
  mayRemove_of_removeByOperator (fun _ _ => Channel.mayRemove_of_kickByName) h

theorem mayRemove_of_channelBan {inner : Inner SessionId} {key : Key} {actor : AccountId}
    {name : Text} {out : Option SessionId} {op : Option AccountId}
    (h : (inner.channelBan key actor name).1 = .ok out op) :
    inner.mayRemove key actor name = true := by
  refine mayRemove_of_removeByOperator (fun c out hact => ?_) h
  cases hban : (c.banByName actor name).1 with
  | error e =>
    dsimp only at hact
    rw [hban] at hact
    cases hact
  | ok out => exact Channel.mayRemove_of_banByName hban

theorem moves_opRemove {raw : List UInt8} {muted : Bool} {found : Option AccountId} {key : Key}
    {target : Text} {verb verbed : String} {call : ModResult SessionId × Inner SessionId}
    (hok : w.inner.Ok cfg) (hidle : (w.sessions sid).handler = .idle)
    (hchannel : (w.sessions sid).channel = some key)
    (hcommand : (Command.ofLine raw).removes = some target)
    (hmay : ∀ out op, call.1 = .ok out op →
      w.inner.mayRemove key (w.sessions sid).account target = true)
    (hcall : w.inner.Moderates key target call.1 call.2) :
    Moves cfg w (.start sid (.chatCommand raw muted found))
      (w.opRemove sid key target verb verbed call) := by
  unfold opRemove
  dsimp only
  split
  · exact moves_reply hok hidle rfl
  · split
    · exact moves_reply hok hidle rfl
    · exact moves_reply hok hidle rfl
    · exact moves_reply hok hidle rfl
    · rename_i targetOut newOperator inner
      rcases hcall with ⟨_, hrefused⟩ | ⟨_, hremoved⟩
      · exact absurd rfl (hrefused targetOut newOperator)
      · exact .removes raw muted found sid key target targetOut _ inner hidle hchannel hcommand
          (hmay targetOut newOperator rfl) hremoved

theorem moves_opTend {key : Key} {call : ModResult SessionId × Inner SessionId}
    {notFound self done : String} (hok : w.inner.Ok cfg)
    (hidle : (w.sessions sid).handler = .idle) (hcall : w.inner.Tends key call.2) :
    Moves cfg w action (w.opTend sid call notFound self done) := by
  unfold opTend
  dsimp only
  split
  · exact moves_reply hok hidle rfl
  · exact moves_reply hok hidle rfl
  · exact moves_reply hok hidle rfl
  · exact .rests action sid _ _ (.of_tends hcall) (hok.tends hcall) (rests_reply hidle rfl)

theorem moves_chatCommand (hok : w.inner.Ok cfg) (hidle : (w.sessions sid).handler = .idle)
    (raw : List UInt8) (muted : Bool) (found : Option AccountId) :
    Moves cfg w (.start sid (.chatCommand raw muted found))
      (w.chatCommand cfg sid raw muted found) := by
  unfold chatCommand
  dsimp only
  split
  · exact .stays _
  · rename_i key hkey
    split
    · exact .stays _
    · split
      · rename_i hslash
        cases hcommand : Command.parse (sanitizeChatText raw) with
        | join target =>
          dsimp only [slashCommand]
          split
          · exact moves_reply hok hidle rfl
          · refine moves_doJoin hok hidle rfl ?_
            rw [Input.asks, Command.ofLine, if_pos hslash, hcommand]
        | emote arg =>
          refine moves_ensureMember hok hidle hkey ?_
          split
          · exact Or.inl rfl
          · exact Or.inr ⟨_, _, rfl, rfl⟩
        | kick target =>
          refine moves_opRemove hok hidle hkey ?_ (fun _ _ => mayRemove_of_channelKick)
            (Inner.channelKick_spec hok key _ target)
          rw [Command.ofLine, if_pos hslash, hcommand]
          rfl
        | ban target =>
          refine moves_opRemove hok hidle hkey ?_ (fun _ _ => mayRemove_of_channelBan)
            (Inner.channelBan_spec hok key _ target)
          rw [Command.ofLine, if_pos hslash, hcommand]
          rfl
        | unban target =>
          dsimp only [slashCommand]
          split
          · exact moves_reply hok hidle rfl
          · split
            · exact moves_reply hok hidle rfl
            · exact moves_opTend hok hidle (Inner.channelUnban_spec _ key _ _)
        | designate target =>
          dsimp only [slashCommand]
          split
          · exact moves_reply hok hidle rfl
          · exact moves_opTend hok hidle (Inner.channelDesignate_spec _ key _ target)
        | other => exact .stays _
      · refine moves_ensureMember hok hidle hkey ?_
        split
        · exact Or.inl rfl
        · exact Or.inr ⟨_, _, rfl, rfl⟩

theorem setSession_setSession (w : World) (sid : SessionId) (s s' : ChatSession)
    (inner : Inner SessionId) (names : ActiveNames) :
    { w.setSession sid s with inner, names }.setSession sid s' =
      { w with inner, names }.setSession sid s' := by
  unfold setSession
  exact congrArg (World.mk inner names) (Function.update_idem _ _ _)

@[simp] theorem setSession_self (w : World) (sid : SessionId) (s : ChatSession) :
    (w.setSession sid s).sessions sid = s := Function.update_self _ _ _

theorem setSession_of_ne (w : World) {sid sid' : SessionId} (h : sid' ≠ sid) (s : ChatSession) :
    (w.setSession sid s).sessions sid' = w.sessions sid' := Function.update_of_ne h _ _

theorem moves_enterChat (hok : w.inner.Ok cfg) (hidle : (w.sessions sid).handler = .idle)
    (statstring : List UInt8) (adopted : Option Text) :
    Moves cfg w action (w.enterChat sid statstring adopted) := by
  unfold enterChat
  dsimp only
  rw [setSession_self]
  split
  · exact moves_rests hok (.silent rfl rfl rfl hidle (Or.inl hidle))
  · rename_i chatName
    split
    · exact moves_rests hok (.silent rfl rfl rfl hidle (Or.inl hidle))
    · split
      · rename_i key hkey
        unfold leaveCurrent
        dsimp only
        rw [setSession_self, setSession_setSession]
        exact .leaves action sid key (.rename chatName)
          { w.sessions sid with
            statstring, channel := none, handler := .noticeLeave key (.rename chatName) }
          hidle hkey rfl rfl rfl rfl nofun
      · rename_i hnone
        rw [show (w.setSession sid _).setSession sid _ = _ from
          setSession_setSession w sid _ _ w.inner w.names]
        refine moves_rests hok (.silent rfl rfl rfl hidle ?_)
        exact Or.inr (Or.inr ⟨hnone, Or.inr (Or.inl ⟨chatName, rfl⟩)⟩)

theorem moves_start (hok : w.inner.Ok cfg) (hidle : (w.sessions sid).handler = .idle)
    (input : Input) : Moves cfg w (.start sid input) (w.start cfg sid input) := by
  cases input with
  | enterChat statstring adopted => exact moves_enterChat hok hidle statstring adopted
  | joinChannel name => exact moves_doJoin hok hidle rfl rfl
  | leaveChat =>
    unfold start
    dsimp only
    split
    · rename_i key hkey
      exact moves_leaveCurrent hidle hkey nofun
    · exact .stays _
  | chatCommand raw muted found => exact moves_chatCommand hok hidle raw muted found
  | disconnect =>
    unfold start
    dsimp only
    split
    · rename_i key hkey
      exact moves_leaveCurrent hidle hkey nofun
    · rename_i hnone
      refine moves_rests hok (.silent rfl rfl rfl hidle ?_)
      exact Or.inr (Or.inr ⟨hnone, Or.inr (Or.inr rfl)⟩)

/-! ## Handlers that go on -/

theorem rests_denied {asked requested : List UInt8} {event : ChatEvent}
    (hjoining : (w.sessions sid).handler = .joining asked requested) (haside : aside event = true) :
    Rests cfg w action sid (w.sessions sid) ({ w.sessions sid with handler := .idle }.send event) :=
  ⟨rfl, ⟨_, rfl, List.forall_mem_singleton.mpr haside⟩, Or.inl rfl, Or.inr ⟨_, _, hjoining⟩,
    Or.inl rfl⟩

theorem moves_resume (hok : w.inner.Ok cfg) (sid : SessionId) (ignores : SessionId → Text → Bool) :
    Moves cfg w (.resume sid ignores) (w.resume cfg sid ignores) := by
  unfold resume
  dsimp only
  cases hhandler : (w.sessions sid).handler with
  | offline => exact .stays _
  | idle => exact .stays _
  | closed => exact .stays _
  | unnaming chatName => exact .releases _ sid _ (Or.inl ⟨chatName, hhandler, rfl⟩)
  | claiming chatName =>
    exact .claims _ sid chatName
      { w.sessions sid with displayName := (w.names.claimName chatName).1, handler := .idle }
      (Or.inr ⟨chatName, hhandler⟩) rfl rfl
  | releasing => exact .releases _ sid _ (Or.inr ⟨hhandler, rfl⟩)
  | noticeLeave key next => exact .notices _ sid key next hhandler
  | joining asked requested =>
    dsimp only
    have hok' := hok.exec (.joinChannel requested
      ⟨(w.sessions sid).account, (w.sessions sid).displayName, (w.sessions sid).flags,
        (w.sessions sid).product, (w.sessions sid).statstring, sid⟩)
    have hjoins := Inner.joinChannel_spec cfg w.inner requested
      ⟨(w.sessions sid).account, (w.sessions sid).displayName, (w.sessions sid).flags,
        (w.sessions sid).product, (w.sessions sid).statstring, sid⟩
    unfold Inner.exec at hok'
    dsimp only at hok'
    generalize w.inner.joinChannel cfg requested _ = call at hjoins hok' ⊢
    obtain ⟨result, inner⟩ := call
    cases hjoins with
    | denied denial _ hroom _ =>
      refine .rests _ sid _ _ (.of_room hroom) hok' ?_
      cases denial with
      | full => exact rests_denied hhandler rfl
      | banned => exact rests_denied hhandler rfl
      | restricted => exact rests_denied hhandler rfl
      | alreadyPresent =>
        exact ⟨rfl, ⟨[], (List.append_nil _).symm, nofun⟩, Or.inl rfl, Or.inr ⟨_, _, hhandler⟩,
          Or.inl rfl⟩
    | entered c joined _ hc habsent hkey hdisplay hroom =>
      exact .joins _ sid asked requested joined.outcome.flags c _ joined inner hhandler rfl rfl hc
        habsent hkey hdisplay hroom
  | showing asked joined existing => exact .shows _ sid asked joined existing hhandler
  | arriving asked joined =>
    refine .arrives ignores sid asked joined _ hhandler fun event hevent => ?_
    obtain ⟨topic, _, rfl⟩ := List.mem_map.mp hevent
    rfl
  | noticeRemoval key target targetOut verb =>
    refine .tells _ sid key target targetOut verb _ [_] hhandler ?_
      (List.forall_mem_singleton.mpr rfl)
    intro d hd
    obtain ⟨out, _, rfl⟩ := List.mem_map.mp hd
    exact List.forall_mem_singleton.mpr rfl
  | speaking key event exclude => exact .speaks ignores sid key event exclude _ hhandler

theorem step_moves (hok : w.inner.Ok cfg) (action : Action) :
    Moves cfg w action (w.step cfg action) := by
  cases action with
  | logOn sid account accountName product flags statstring =>
    unfold step
    dsimp only
    split
    · rename_i hoffline
      unfold claimName
      dsimp only
      rw [setSession_setSession]
      exact .claims _ sid accountName _ (Or.inl ⟨by simpa using hoffline, rfl⟩) rfl rfl
    · exact .stays _
  | start sid input =>
    unfold step
    dsimp only
    split
    · rename_i hidle
      exact moves_start hok (by simpa using hidle) input
    · exact .stays _
  | resume sid ignores => exact moves_resume hok sid ignores
  | flushPending walk => exact .flushes walk

end World

end CommandCenter.Daemon
