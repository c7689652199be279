import CommandCenter.Daemon.ChatSessions

/-!
# What becomes of a request to join

A session keeps its own record of its channel, and believes it: asked to join the channel that it
has on record, it does nothing, and asked to join from no channel by a chat line, it does not look
at the line. So a request may be lost where the record is wrong or missing.

* `Entering.moves`: while a join is under way the session is a member of where it leads, as long as
  no operator removes it.
* `join_requests_answered`: in runs that keep clear of the cases in `Heard`, every request ends in
  the channel or in a refusal.
-/

namespace CommandCenter.Daemon

open Rust CommandCenter.Core Proto Library

def Handler.isIdle : Handler → Bool
  | .idle => true
  | _ => false

theorem Handler.isIdle_iff {handler : Handler} : handler.isIdle = true ↔ handler = .idle := by
  cases handler <;> simp [isIdle]

/-- The name that a join under way was asked for, and the channel that it leads to. -/
def Handler.aims : Handler → Option (List UInt8 × Key)
  | .noticeLeave _ (.join asked requested) | .joining asked requested =>
    some (asked, normalizeChannelName requested)
  | .showing asked joined _ | .arriving asked joined => some (asked, joined.key)
  | _ => none

namespace World

/-- The session whose request to join the step brings to an end, and the name it asked for. -/
def ends (cfg : NodeConfig) (w : World) (action : Action) : Option (SessionId × List UInt8) :=
  match action with
  | .start sid input =>
    if (w.sessions sid).handler.isIdle ∧ ((w.step cfg action).sessions sid).handler.isIdle then
      input.asks.map (sid, ·)
    else none
  | .resume sid _ =>
    match (w.sessions sid).handler with
    | .joining asked _ =>
      if ((w.step cfg action).sessions sid).handler.isIdle then some (sid, asked) else none
    | .arriving asked _ => some (sid, asked)
    | _ => none
  | _ => none

/-- A request for a channel that the step ends has put the session there, or was refused. -/
def Answered (cfg : NodeConfig) (w : World) (action : Action) : Prop :=
  ∀ sid asked, w.ends cfg action = some (sid, asked) → normalizeChannelName asked ≠ [] →
    let s := (w.step cfg action).sessions sid
    (s.channel = some (normalizeChannelName asked) ∧
      (w.step cfg action).inner.isMember (normalizeChannelName asked) s.displayName = true) ∨
    ∃ event ∈ s.inbox.drop (w.sessions sid).inbox.length,
      event.event = .channelFull ∨ event.event = .channelRestricted

/-- The step loses no request: what is asked for is not exchanged for a default channel, a chat line
asks from within a channel, a session that asks for the channel it has on record is a member of it,
and no operator removes a session whose join is under way. -/
def Heard (cfg : NodeConfig) (w : World) : Action → Prop
  | .start sid input =>
    let s := w.sessions sid
    s.handler = .idle →
    (∀ asked, input.asks = some asked → normalizeChannelName asked ≠ [] →
      normalizeChannelName (s.redirect cfg asked) = normalizeChannelName asked ∧
      (s.channel = some (normalizeChannelName asked) →
        w.inner.isMember (normalizeChannelName asked) s.displayName = true) ∧
      (s.channel = none → ∃ name, input = .joinChannel name)) ∧
    ∀ key target, s.channel = some key → input.removes = some target →
      w.inner.mayRemove key s.account target = true →
      ∀ sid', (w.sessions sid').handler.enters = some key →
        (w.sessions sid').displayName.toAsciiLowercase ≠ target.toAsciiLowercase
  | _ => True

/-- Where the joins under way have led. -/
structure Entering (w : World) : Prop where
  member : ∀ sid key, (w.sessions sid).handler.enters = some key →
    ((w.sessions sid).displayName, sid) ∈ w.inner.subs key
  aim : ∀ sid asked key, (w.sessions sid).handler.aims = some (asked, key) →
    normalizeChannelName asked ≠ [] → key = normalizeChannelName asked

variable {cfg : NodeConfig} {w : World}

theorem entering_new : World.new.Entering where
  member _ _ h := nomatch h
  aim _ _ _ h := nomatch h

/-- The joins of the sessions that do not move go on. -/
theorem Entering.frame (h : w.Entering) {w' : World} (sid : SessionId)
    (hothers : ∀ sid', sid' ≠ sid → (w'.sessions sid').displayName = (w.sessions sid').displayName ∧
      (w'.sessions sid').handler = (w.sessions sid').handler)
    (hkept : ∀ sid' key, sid' ≠ sid → (w.sessions sid').handler.enters = some key →
      ((w.sessions sid').displayName, sid') ∈ w.inner.subs key →
      ((w.sessions sid').displayName, sid') ∈ w'.inner.subs key)
    (hmember : ∀ key, (w'.sessions sid).handler.enters = some key →
      ((w'.sessions sid).displayName, sid) ∈ w'.inner.subs key)
    (haim : ∀ asked key, (w'.sessions sid).handler.aims = some (asked, key) →
      normalizeChannelName asked ≠ [] → key = normalizeChannelName asked) : w'.Entering := by
  refine ⟨fun a key ha => ?_, fun a asked key ha => ?_⟩
  · by_cases he : a = sid
    · subst he
      exact hmember key ha
    · obtain ⟨hname, hhandler⟩ := hothers a he
      rw [hhandler] at ha
      rw [hname]
      exact hkept a key he ha (h.member a key ha)
  · by_cases he : a = sid
    · subst he
      exact haim asked key ha
    · rw [(hothers a he).2] at ha
      exact h.aim a asked key ha

/-- Where only the handler of one session changes, and no subscriber is lost. -/
theorem Entering.goesOn (h : w.Entering) {w' : World} (sid : SessionId)
    (hothers : ∀ sid', sid' ≠ sid → (w'.sessions sid').displayName = (w.sessions sid').displayName ∧
      (w'.sessions sid').handler = (w.sessions sid').handler)
    (hsubs : w'.inner.subs = w.inner.subs)
    (henters : (w'.sessions sid).handler.enters = none)
    (haim : ∀ asked key, (w'.sessions sid).handler.aims = some (asked, key) →
      normalizeChannelName asked ≠ [] → key = normalizeChannelName asked) : w'.Entering := by
  refine h.frame sid hothers (fun sid' key _ _ hmem => ?_) (fun key he => ?_) haim
  · rw [hsubs]
    exact hmem
  · rw [henters] at he
    cases he

theorem Entering.rests (h : w.Entering) {w' : World} (sid : SessionId)
    (hothers : ∀ sid', sid' ≠ sid → (w'.sessions sid').displayName = (w.sessions sid').displayName ∧
      (w'.sessions sid').handler = (w.sessions sid').handler)
    (hsubs : w'.inner.subs = w.inner.subs) (hidle : (w'.sessions sid).handler = .idle) :
    w'.Entering := by
  refine h.goesOn sid hothers hsubs ?_ ?_
  · rw [hidle]
    rfl
  · rw [hidle]
    rintro _ _ ⟨⟩

/-- A session that joins one channel does so under the name it asked for. -/
theorem asks_aim {action : Action} {sid : SessionId} {asked requested : List UInt8}
    (hasks : Asks cfg w action sid asked requested) (hheard : w.Heard cfg action)
    (hne : normalizeChannelName asked ≠ []) :
    normalizeChannelName requested = normalizeChannelName asked := by
  obtain ⟨hidle, rfl, input, rfl, hasked⟩ := hasks
  exact ((hheard hidle).1 asked hasked hne).1

theorem setSession_keeps_others (w : World) (inner : Inner SessionId) (names : ActiveNames)
    (sid : SessionId) (s : ChatSession) (a : SessionId) (h : a ≠ sid) :
    (({ w with inner, names }.setSession sid s).sessions a).displayName =
        (w.sessions a).displayName ∧
      (({ w with inner, names }.setSession sid s).sessions a).handler = (w.sessions a).handler := by
  obtain ⟨hname, _, hhandler⟩ := setSession_others { w with inner, names } sid s a h
  exact ⟨hname, hhandler⟩

/-- A session that has entered a channel is on its fan-out list under its name, which is no other
session's. -/
theorem Ok.apart (hok : w.Ok cfg) {a b : SessionId} {key : Key} (hab : a ≠ b)
    (ha : ((w.sessions a).displayName, a) ∈ w.inner.subs key) (hb : (w.sessions b).named = true) :
    (w.sessions a).displayName.toAsciiLowercase ≠ (w.sessions b).displayName.toAsciiLowercase :=
  fun he => hab (hok.distinct a b (hok.subscribed key _ a ha).1 hb he)

theorem Entering.starts (h : w.Entering) {action : Action} {sid : SessionId}
    {inner : Inner SessionId} {s : ChatSession} (hheard : w.Heard cfg action)
    (hkeeps : w.inner.Keeps inner) (hs : Rests cfg w action sid (w.sessions sid) s) :
    ({ w with inner }.setSession sid s).Entering := by
  refine h.goesOn sid (setSession_keeps_others w inner w.names sid s) (funext hkeeps.subs) ?_ ?_
  · rw [setSession_self]
    rcases hs.after with he | ⟨_, _, _, he, _⟩ | ⟨_, ⟨_, _, he, _⟩ | ⟨_, he⟩ | he⟩ <;>
      exact congrArg Handler.enters he
  · rw [setSession_self]
    rcases hs.after with he | ⟨_, _, _, he, _⟩ | ⟨_, ⟨_, _, he, hasks⟩ | ⟨_, he⟩ | he⟩ <;> rw [he]
    · rintro _ _ ⟨⟩
    · rintro _ _ ⟨⟩
    · rintro _ _ ⟨⟩ hne
      exact asks_aim hasks hheard hne
    · rintro _ _ ⟨⟩
    · rintro _ _ ⟨⟩

theorem Entering.leaves (h : w.Entering) (hok : w.Ok cfg) {action : Action} {sid : SessionId}
    {key : Key} {next : AfterLeave} {s : ChatSession} (hheard : w.Heard cfg action)
    (hbefore : (w.sessions sid).handler = .idle)
    (hname : s.displayName = (w.sessions sid).displayName)
    (hhandler : s.handler = .noticeLeave key next)
    (hasks : ∀ asked requested, next = .join asked requested →
      Asks cfg w action sid asked requested) :
    ({ w with inner := (w.inner.leaveChannel key s.displayName).2 }.setSession sid s).Entering := by
  have hdeparts := Inner.leaveChannel_departs hok.inner key s.displayName
  refine h.frame sid (setSession_keeps_others w _ w.names sid s) (fun a k hne _ hmem => ?_) ?_ ?_
  · refine (hdeparts.subs k _).mpr ⟨hmem, ?_⟩
    rintro ⟨_, he⟩
    rw [hname] at he
    exact hok.apart hne hmem (by rw [ChatSession.named, hbefore]) he
  · rw [setSession_self, hhandler]
    rintro _ ⟨⟩
  · rw [setSession_self, hhandler]
    cases next with
    | join asked requested =>
      rintro _ _ ⟨⟩ hne
      exact asks_aim (hasks asked requested rfl) hheard hne
    | done => rintro _ _ ⟨⟩
    | rename chatName => rintro _ _ ⟨⟩
    | close => rintro _ _ ⟨⟩

theorem Entering.notices (h : w.Entering) {sid : SessionId} {key : Key} {next : AfterLeave}
    (hbefore : (w.sessions sid).handler = .noticeLeave key next) :
    ({ w with inner := w.inner.enqueueLeave key (w.sessions sid).leaveEvent }.setSession sid
      { w.sessions sid with handler := next.handler }).Entering := by
  refine h.goesOn sid (setSession_keeps_others w _ w.names sid _)
    (Inner.enqueueLeave_keeps w.inner key _).2 ?_ ?_
  · rw [setSession_self]
    cases next <;> rfl
  · rw [setSession_self]
    intro asked k haims hne
    refine h.aim sid asked k ?_ hne
    rw [hbefore]
    cases next with
    | join asked requested => exact haims
    | done => cases haims
    | rename chatName => cases haims
    | close => cases haims

theorem Entering.shows (h : w.Entering) {sid : SessionId} {asked : List UInt8}
    {joined : JoinedChannel} {existing : List ChannelOccupant}
    (hbefore : (w.sessions sid).handler = .showing asked joined existing) :
    (w.setSession sid ({ w.sessions sid with handler := .arriving asked joined }.receive
      ((w.sessions sid).snapshot joined existing))).Entering := by
  refine h.frame sid (setSession_keeps_others w _ w.names sid _) (fun _ _ _ _ hmem => hmem) ?_ ?_
  · rw [setSession_self]
    rintro _ ⟨⟩
    exact h.member sid joined.key (by rw [hbefore]; rfl)
  · rw [setSession_self]
    rintro _ _ ⟨⟩ hne
    exact h.aim sid asked joined.key (by rw [hbefore]; rfl) hne

theorem Entering.removes (h : w.Entering) {sid : SessionId} {key : Key} {target verb : Text}
    {targetOut : Option SessionId} {inner : Inner SessionId}
    (hdeparts : w.inner.Departs key target inner)
    (hspared : ∀ a, (w.sessions a).handler.enters = some key →
      (w.sessions a).displayName.toAsciiLowercase ≠ target.toAsciiLowercase) :
    ({ w with inner }.setSession sid
      { w.sessions sid with handler := .noticeRemoval key target targetOut verb }).Entering := by
  refine h.frame sid (setSession_keeps_others w _ w.names sid _) (fun a k _ henters hmem => ?_) ?_ ?_
  · refine (hdeparts.subs k _).mpr ⟨hmem, ?_⟩
    rintro ⟨rfl, he⟩
    exact hspared a henters he
  · rw [setSession_self]
    rintro _ ⟨⟩
  · rw [setSession_self]
    rintro _ _ ⟨⟩

/-- **A step that loses no request** leaves the joins under way where they led. -/
theorem Entering.moves (h : w.Entering) (hok : w.Ok cfg) {action : Action} {w' : World}
    (hheard : w.Heard cfg action) (hm : Moves cfg w action w') : w'.Entering := by
  cases hm with
  | stays => exact h
  | rests _ sid inner s hkeeps hinner hs => exact h.starts hheard hkeeps hs
  | claims _ sid base s hbefore hname hhandler =>
    refine h.goesOn sid (setSession_keeps_others w w.inner _ sid s) rfl ?_ ?_
    · rw [setSession_self, hhandler]
      rfl
    · rw [setSession_self, hhandler]
      rintro _ _ ⟨⟩
  | releases _ sid handler hbefore =>
    refine h.goesOn sid (setSession_keeps_others w w.inner _ sid _) rfl ?_ ?_
    · rw [releaseName, setSession_self]
      rcases hbefore with ⟨_, _, rfl⟩ | ⟨_, rfl⟩ <;> rfl
    · rw [releaseName, setSession_self]
      rcases hbefore with ⟨_, _, rfl⟩ | ⟨_, rfl⟩ <;> rintro _ _ ⟨⟩
  | leaves _ sid key next s hbefore hchannel hname _ hnone hhandler hasks =>
    exact h.leaves hok hheard hbefore hname hhandler hasks
  | notices _ sid key next hbefore => exact h.notices hbefore
  | joins _ sid asked requested flags c joiner joined inner hbefore hname hout hc habsent hkey
      hdisplay hroom =>
    have harrives := hroom.arrives
    refine h.frame sid (setSession_keeps_others w _ w.names sid _) (fun a k _ _ hmem => ?_) ?_ ?_
    · show _ ∈ inner.subs k
      rw [harrives.subs]
      exact List.mem_append_left _ hmem
    · rw [setSession_self]
      rintro _ ⟨⟩
      show _ ∈ inner.subs joined.key
      rw [harrives.subs, if_pos hkey, hname, hout]
      exact List.mem_append_right _ (List.mem_singleton.mpr rfl)
    · rw [setSession_self]
      rintro _ _ ⟨⟩ hne
      rw [hkey]
      exact h.aim sid asked _ (by rw [hbefore]; rfl) hne
  | shows _ sid asked joined existing hbefore => exact h.shows hbefore
  | arrives ignores sid asked joined events hbefore haside =>
    refine h.rests sid (fun a he => ?_) (Inner.broadcast_subs _ _ _ _ _ _) ?_
    · rw [setSession_of_ne _ he]
      exact ⟨rfl, rfl⟩
    · rw [setSession_self]
      rfl
  | speaks ignores sid key event exclude base hbefore =>
    refine h.rests sid (fun a he => ?_) (Inner.broadcast_subs _ _ _ _ _ _) ?_
    · rw [setSession_of_ne _ he]
      exact ⟨rfl, rfl⟩
    · rw [setSession_self]
  | removes raw muted found sid key target targetOut verb inner hbefore hchannel hcommand hmay
      hremoved =>
    exact h.removes (hremoved.departs hok.inner)
      ((hheard hbefore).2 key target hchannel hcommand hmay)
  | tells _ sid key target targetOut verb sent events hbefore hsent hevents =>
    refine h.rests sid (fun a he => ?_) (Inner.enqueueLeave_keeps w.inner key _).2 ?_
    · rw [setSession_of_ne _ he]
      exact ⟨rfl, rfl⟩
    · rw [setSession_self]
      rfl
  | flushes walk =>
    have hkeeps := Inner.flushAll_keeps w.inner ((walk.order w.inner.pendingLeaves).map Sigma.fst)
    refine h.frame 0 (fun _ _ => ⟨rfl, rfl⟩) (fun _ k _ _ hmem => ?_) (fun k he => ?_) (h.aim 0)
    · exact congrFun hkeeps.2.1 k ▸ hmem
    · exact congrFun hkeeps.2.1 k ▸ h.member 0 k he

/-! ## The end of a request -/

theorem doJoin_ends {sid : SessionId} {asked : List UInt8}
    (hend : ((w.doJoin cfg sid asked).sessions sid).handler = .idle) :
    w.doJoin cfg sid asked = w ∧ (w.sessions sid).channel =
      some (normalizeChannelName ((w.sessions sid).redirect cfg asked)) := by
  unfold doJoin at hend ⊢
  dsimp only at hend ⊢
  split
  · rename_i prev hprev
    rw [hprev] at hend
    dsimp only at hend
    split
    · rename_i hsame
      exact ⟨rfl, hprev.trans (congrArg some hsame)⟩
    · rename_i hother
      rw [if_neg hother, leaveCurrent, setSession_self] at hend
      cases hend
  · rename_i hnone
    rw [hnone, setSession_self] at hend
    cases hend

theorem chatCommand_asks {sid : SessionId} {raw : List UInt8} {muted : Bool}
    {found : Option AccountId} {key : Key} {asked : List UInt8}
    (hchannel : (w.sessions sid).channel = some key)
    (hasks : (Input.chatCommand raw muted found).asks = some asked)
    (hne : normalizeChannelName asked ≠ []) :
    w.chatCommand cfg sid raw muted found = w.doJoin cfg sid asked := by
  unfold Input.asks at hasks
  dsimp only at hasks
  split at hasks
  · rename_i target hline
    obtain rfl := Option.some.inj hasks
    unfold Command.ofLine at hline
    dsimp only at hline
    split at hline
    · rename_i hslash
      have htext : (sanitizeChatText raw).isEmpty = false := by
        cases htext : sanitizeChatText raw with
        | nil =>
          rw [htext] at hslash
          cases hslash
        | cons => rfl
      have htarget : target.isEmpty = false := by
        cases target with
        | nil => exact absurd rfl hne
        | cons => rfl
      unfold chatCommand
      dsimp only
      rw [hchannel]
      dsimp only
      rw [htext, if_pos hslash, hline]
      dsimp only [slashCommand]
      rw [htarget]
      rfl
    · cases hline
  · cases hasks

theorem answered_start {sid : SessionId} {input : Input} {asked : List UInt8}
    (hheard : w.Heard cfg (.start sid input)) (hidle : (w.sessions sid).handler = .idle)
    (hasks : input.asks = some asked) (hne : normalizeChannelName asked ≠ [])
    (hend : ((w.start cfg sid input).sessions sid).handler = .idle) :
    w.start cfg sid input = w ∧ (w.sessions sid).channel = some (normalizeChannelName asked) ∧
      w.inner.isMember (normalizeChannelName asked) (w.sessions sid).displayName = true := by
  obtain ⟨hrequested, hmember, hline⟩ := (hheard hidle).1 asked hasks hne
  have hstart : w.start cfg sid input = w.doJoin cfg sid asked := by
    cases input with
    | joinChannel name =>
      obtain rfl := Option.some.inj hasks
      rfl
    | chatCommand raw muted found =>
      cases hchannel : (w.sessions sid).channel with
      | none =>
        obtain ⟨_, hname⟩ := hline hchannel
        cases hname
      | some key => exact chatCommand_asks hchannel hasks hne
    | enterChat => cases hasks
    | leaveChat => cases hasks
    | disconnect => cases hasks
  rw [hstart] at hend ⊢
  obtain ⟨hsame, hchannel⟩ := doJoin_ends hend
  rw [hrequested] at hchannel
  exact ⟨hsame, hchannel, hmember hchannel⟩

theorem isMember_of_joining (hok : w.Ok cfg) {sid : SessionId} {asked requested : List UInt8}
    (hbefore : (w.sessions sid).handler = .joining asked requested) (key : Key) :
    w.inner.isMember key (w.sessions sid).displayName = false := by
  have hplaced := hok.placed sid
  rw [hbefore] at hplaced
  rw [Bool.eq_false_iff, ne_eq, hok.inner.isMember_iff_subs]
  rintro ⟨⟨name, other⟩, hmem, hname⟩
  obtain ⟨hnamed, rfl, hchannel⟩ := hok.subscribed key name other hmem
  obtain rfl := hok.distinct other sid hnamed (by rw [ChatSession.named, hbefore]) hname
  rw [show (w.sessions other).channel = none from hplaced] at hchannel
  cases hchannel

/-- So it is turned away with an event, if it is. -/
theorem answered_joining (hok : w.Ok cfg) {sid : SessionId} {asked requested : List UInt8}
    {ignores : SessionId → Text → Bool}
    (hbefore : (w.sessions sid).handler = .joining asked requested)
    (hend : ((w.resume cfg sid ignores).sessions sid).handler = .idle) :
    ∃ event, (event.event = .channelFull ∨ event.event = .channelRestricted) ∧
      ((w.resume cfg sid ignores).sessions sid).inbox = (w.sessions sid).inbox ++ [event] := by
  unfold resume at hend ⊢
  dsimp only at hend ⊢
  rw [hbefore] at hend ⊢
  dsimp only at hend ⊢
  have hjoins := Inner.joinChannel_spec cfg w.inner requested
    ⟨(w.sessions sid).account, (w.sessions sid).displayName, (w.sessions sid).flags,
      (w.sessions sid).product, (w.sessions sid).statstring, sid⟩
  generalize w.inner.joinChannel cfg requested _ = call at hjoins hend ⊢
  obtain ⟨result, inner⟩ := call
  cases hjoins with
  | denied denial _ hroom hpresent =>
    dsimp only
    rw [setSession_self]
    cases denial with
    | full => exact ⟨_, Or.inl rfl, rfl⟩
    | banned => exact ⟨_, Or.inr rfl, rfl⟩
    | restricted => exact ⟨_, Or.inr rfl, rfl⟩
    | alreadyPresent =>
      have hmember := hpresent rfl
      rw [isMember_of_joining hok hbefore] at hmember
      cases hmember
  | entered c joined _ hc habsent hkey hdisplay hroom =>
    dsimp only at hend
    rw [setSession_self] at hend
    cases hend

/-- A join that was under way ends where it led. -/
theorem answered_arriving (hok : w.Ok cfg) (hentering : w.Entering) {sid : SessionId}
    {asked : List UInt8} {joined : JoinedChannel} {ignores : SessionId → Text → Bool}
    (hbefore : (w.sessions sid).handler = .arriving asked joined)
    (hne : normalizeChannelName asked ≠ []) :
    ((w.resume cfg sid ignores).sessions sid).channel = some (normalizeChannelName asked) ∧
      (w.resume cfg sid ignores).inner.isMember (normalizeChannelName asked)
        ((w.resume cfg sid ignores).sessions sid).displayName = true := by
  have hplaced := hok.placed sid
  rw [hbefore] at hplaced
  have haim := hentering.aim sid asked joined.key (by rw [hbefore]; rfl) hne
  have hmember := hentering.member sid joined.key (by rw [hbefore]; rfl)
  have hsubs := Inner.broadcast_subs ⟨fun _ => false, ignores⟩ w.inner joined.key
    (w.sessions sid).joinEvent (some (w.sessions sid).displayName) none
  rw [← hsubs] at hmember
  have hinner : (w.resume cfg sid ignores).inner.Ok cfg := (hok.step (.resume sid ignores)).inner
  rw [hinner.isMember_iff_subs]
  unfold resume
  dsimp only
  rw [hbefore]
  dsimp only
  rw [setSession_self, ← haim]
  exact ⟨hplaced, ((w.sessions sid).displayName, sid), hmember, rfl⟩

theorem answered (hok : w.Ok cfg) (hentering : w.Entering) {action : Action}
    (hheard : w.Heard cfg action) : w.Answered cfg action := by
  intro sid asked hends hne
  dsimp only
  cases action with
  | logOn => cases hends
  | flushPending walk => cases hends
  | start a input =>
    unfold ends at hends
    dsimp only at hends
    split at hends
    · rename_i hidle
      obtain ⟨asked', hasks, hpair⟩ := Option.map_eq_some_iff.mp hends
      obtain ⟨rfl, rfl⟩ := Prod.mk.inj hpair
      have hbefore : (w.sessions a).handler = .idle := Handler.isIdle_iff.mp hidle.1
      have hstep : w.step cfg (.start a input) = w.start cfg a input := by
        unfold World.step
        dsimp only
        rw [hbefore]
        rfl
      rw [hstep] at hidle ⊢
      obtain ⟨hsame, hin⟩ := answered_start hheard hbefore hasks hne (Handler.isIdle_iff.mp hidle.2)
      rw [hsame]
      exact Or.inl hin
    · cases hends
  | resume a ignores =>
    unfold ends at hends
    dsimp only at hends
    split at hends
    · rename_i requested hbefore
      split at hends
      · rename_i hend
        obtain ⟨rfl, rfl⟩ := Prod.mk.inj (Option.some.inj hends)
        obtain ⟨event, hevent, hinbox⟩ := answered_joining hok hbefore (Handler.isIdle_iff.mp hend)
        refine Or.inr ⟨event, ?_, hevent⟩
        rw [show w.step cfg (.resume a ignores) = w.resume cfg a ignores from rfl, hinbox,
          List.drop_left]
        exact List.mem_singleton.mpr rfl
      · cases hends
    · rename_i joined hbefore
      obtain ⟨rfl, rfl⟩ := Prod.mk.inj (Option.some.inj hends)
      exact Or.inl (answered_arriving hok hentering hbefore hne)
    · cases hends

/-- **Every request to join is answered** in every run that keeps clear of the cases in which a
session's record of its channel misleads it. -/
theorem join_requests_answered (cfg : NodeConfig) (actions : List Action)
    (h : Along (step cfg) (Heard cfg) new actions) :
    Along (step cfg) (Answered cfg) new actions := by
  refine Along.along (J := fun w => w.Ok cfg ∧ w.Entering) (fun w action hw hheard => ?_)
    (fun w action hw hheard => answered hw.1 hw.2 hheard) ⟨ok_new, entering_new⟩ h
  exact ⟨hw.1.step action, hw.2.moves hw.1 hheard (step_moves hw.1.inner action)⟩

theorem heard_join {sid : SessionId} {name : List UInt8}
    (hasked : normalizeChannelName ((w.sessions sid).redirect cfg name) = normalizeChannelName name)
    (hrecord : (w.sessions sid).channel = some (normalizeChannelName name) →
      w.inner.isMember (normalizeChannelName name) (w.sessions sid).displayName = true) :
    w.Heard cfg (.start sid (.joinChannel name)) := by
  intro _
  constructor
  · rintro _ ⟨⟩ _
    exact ⟨hasked, hrecord, fun _ => ⟨name, rfl⟩⟩
  · rintro _ _ _ ⟨⟩

/-- Two come to the channel, and the second asks for it again. -/
def asksAgain : List Action :=
  comesToDen 0 "alice" ++ comesToDen 1 "bob" ++ [.start 1 (.joinChannel den)]

theorem join_requests_answered_den :
    Along (step openChannels) (Answered openChannels) new asksAgain := by
  have hfirst : (run (step openChannels) new (asksAgain.take 1)).Heard openChannels
      (.start 0 (.joinChannel den)) := heard_join (by decide +kernel) (by decide +kernel)
  have hsecond : (run (step openChannels) new (asksAgain.take 6)).Heard openChannels
      (.start 1 (.joinChannel den)) := heard_join (by decide +kernel) (by decide +kernel)
  have hagain : (run (step openChannels) new (asksAgain.take 10)).Heard openChannels
      (.start 1 (.joinChannel den)) := heard_join (by decide +kernel) (by decide +kernel)
  exact join_requests_answered openChannels _ ⟨trivial, hfirst, trivial, trivial, trivial, trivial,
    hsecond, trivial, trivial, trivial, hagain, trivial⟩

/-- The first to come is the operator, and kicks the second, whose record is left as it was. -/
def kickedFromDen : List Action :=
  comesToDen 0 "alice" ++ comesToDen 1 "bob" ++
    [.start 0 (.chatCommand (Text.asBytes "/kick bob".toList) false none),
      .resume 0 fun _ _ => false, .start 1 (.joinChannel den)]

/-- A session that was kicked asks for its channel again, and nothing happens. -/
theorem kicked_request_lost :
    ¬ ∀ cfg actions, Along (step cfg) (Answered cfg) new actions := by
  intro h
  have hlast := (h openChannels kickedFromDen).get (i := 12) (by decide)
  have hends : (run (step openChannels) new (kickedFromDen.take 12)).ends openChannels
      (.start 1 (.joinChannel den)) = some (1, den) := by decide +kernel
  rcases hlast 1 den hends (by decide) with ⟨_, hmember⟩ | ⟨event, hevent, _⟩
  · exact absurd hmember (by decide +kernel)
  · have hnothing : ((step openChannels (run (step openChannels) new (kickedFromDen.take 12))
        (.start 1 (.joinChannel den))).sessions 1).inbox.drop
          ((run (step openChannels) new (kickedFromDen.take 12)).sessions 1).inbox.length = [] := by
      decide +kernel
    exact absurd hevent (hnothing ▸ List.not_mem_nil)

end World

end CommandCenter.Daemon
