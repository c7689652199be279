import CommandCenter.Daemon.ChatMoves

/-!
# What a session believes of its channel

A subscriber of a channel is a session that shows the name it subscribed with and believes to be
there. The converse fails: an operator's removal does not tell the session's own record.

* `World.Ok.moves`, `World.Ok.step`: every move keeps sessions and node in step.
-/

namespace CommandCenter.Daemon

open Rust CommandCenter.Core Proto Library

/-- The channel that a session has while its handler is at this point. -/
def Handler.places (handler : Handler) (channel : Option Key) : Prop :=
  match handler with
  | .idle | .noticeRemoval .. => True
  | .speaking _ event _ => aside event = true
  | .showing _ joined _ | .arriving _ joined => channel = some joined.key
  | _ => channel = none

/-- The channel that a join under way has entered. -/
def Handler.enters : Handler → Option Key
  | .showing _ joined _ | .arriving _ joined => some joined.key
  | _ => none

namespace World

structure Ok (cfg : NodeConfig) (w : World) : Prop where
  inner : w.inner.Ok cfg
  held : ∀ sid, (w.sessions sid).named = true →
    (w.sessions sid).displayName.toAsciiLowercase ∈ w.names
  distinct : ∀ sid sid', (w.sessions sid).named = true → (w.sessions sid').named = true →
    (w.sessions sid).displayName.toAsciiLowercase =
      (w.sessions sid').displayName.toAsciiLowercase → sid = sid'
  subscribed : ∀ key name sid, (name, sid) ∈ w.inner.subs key → (w.sessions sid).named = true ∧
    (w.sessions sid).displayName = name ∧ (w.sessions sid).channel = some key
  placed : ∀ sid, (w.sessions sid).handler.places (w.sessions sid).channel
  notices : ∀ key, ∀ event ∈ w.inner.queued key, event.event = .leave

variable {cfg : NodeConfig} {w : World}

theorem ok_new : World.new.Ok cfg where
  inner := Inner.ok_empty
  held _ h := nomatch h
  distinct _ _ h _ _ := nomatch h
  subscribed _ _ _ h := nomatch h
  placed _ := rfl
  notices _ _ h := nomatch h

/-! ## Moves that change a name -/

theorem Ok.not_subscribed (h : w.Ok cfg) {sid : SessionId} (hn : (w.sessions sid).named = false)
    (key : Key) (name : Text) : (name, sid) ∉ w.inner.subs key := by
  intro hmem
  obtain ⟨hnamed, _⟩ := h.subscribed key name sid hmem
  rw [hn] at hnamed
  cases hnamed

theorem Ok.claims (h : w.Ok cfg) {sid : SessionId} {base : Text} {s : ChatSession}
    (hunnamed : (w.sessions sid).named = false)
    (hname : s.displayName = (w.names.claimName base).1) (hhandler : s.handler = .idle) :
    ({ w with names := (w.names.claimName base).2 }.setSession sid s).Ok cfg := by
  have hfresh : s.displayName.toAsciiLowercase ∉ w.names := hname ▸ claimName_fresh w.names base
  have hnames : (w.names.claimName base).2 = insert s.displayName.toAsciiLowercase w.names := by
    rw [hname]
    rfl
  have hother : ∀ sid', sid' ≠ sid →
      ({ w with names := (w.names.claimName base).2 }.setSession sid s).sessions sid' =
        w.sessions sid' := fun sid' he => setSession_of_ne _ he s
  -- a name in use is not the one that was found free
  have hapart : ∀ sid', (w.sessions sid').named = true →
      (w.sessions sid').displayName.toAsciiLowercase ≠ s.displayName.toAsciiLowercase :=
    fun sid' hn he => hfresh (he ▸ h.held sid' hn)
  refine ⟨h.inner, fun a ha => ?_, fun a b ha hb he => ?_, fun key name a hmem => ?_, fun a => ?_,
    h.notices⟩
  · show _ ∈ (w.names.claimName base).2
    by_cases hsid : a = sid
    · subst hsid
      rw [setSession_self, hnames]
      exact Finset.mem_insert_self _ _
    · rw [hother a hsid] at ha ⊢
      rw [hnames]
      exact Finset.mem_insert_of_mem (h.held a ha)
  · by_cases hsa : a = sid <;> by_cases hsb : b = sid
    · rw [hsa, hsb]
    · subst hsa
      rw [hother b hsb] at hb he
      rw [setSession_self] at he
      exact absurd he.symm (hapart b hb)
    · subst hsb
      rw [hother a hsa] at ha he
      rw [setSession_self] at he
      exact absurd he (hapart a ha)
    · rw [hother a hsa] at ha he
      rw [hother b hsb] at hb he
      exact h.distinct a b ha hb he
  · have hsid : a ≠ sid := by
      rintro rfl
      exact h.not_subscribed hunnamed key name hmem
    rw [hother a hsid]
    exact h.subscribed key name a hmem
  · by_cases hsid : a = sid
    · subst hsid
      rw [setSession_self, hhandler]
      trivial
    · rw [hother a hsid]
      exact h.placed a

theorem Ok.releases (h : w.Ok cfg) {sid : SessionId} {handler : Handler}
    (hbefore : (∃ chatName, (w.sessions sid).handler = .unnaming chatName ∧
      handler = .claiming chatName) ∨ (w.sessions sid).handler = .releasing ∧ handler = .closed) :
    (w.releaseName sid handler).Ok cfg := by
  have hplaced := h.placed sid
  obtain ⟨hwas, hnone, hunnamed, hplaces⟩ : (w.sessions sid).named = true ∧
      (w.sessions sid).channel = none ∧ { w.sessions sid with handler }.named = false ∧
        handler.places none := by
    rcases hbefore with ⟨_, he, rfl⟩ | ⟨he, rfl⟩
    · rw [he] at hplaced
      exact ⟨by rw [ChatSession.named, he], hplaced, rfl, rfl⟩
    · rw [he] at hplaced
      exact ⟨by rw [ChatSession.named, he], hplaced, rfl, rfl⟩
  have hself : (w.releaseName sid handler).sessions sid = { w.sessions sid with handler } :=
    setSession_self _ _ _
  have hother : ∀ a, a ≠ sid → (w.releaseName sid handler).sessions a = w.sessions a :=
    fun a he => setSession_of_ne _ he _
  have hne : ∀ a, ((w.releaseName sid handler).sessions a).named = true → a ≠ sid := by
    rintro a ha rfl
    rw [hself, hunnamed] at ha
    cases ha
  refine ⟨h.inner, fun a ha => ?_, fun a b ha hb he => ?_, fun key name a hmem => ?_, fun a => ?_,
    h.notices⟩
  · have hsid := hne a ha
    rw [hother a hsid] at ha ⊢
    refine Finset.mem_erase.mpr ⟨fun he => hsid (h.distinct a sid ha hwas he), h.held a ha⟩
  · have hsa := hne a ha
    have hsb := hne b hb
    rw [hother a hsa] at ha he
    rw [hother b hsb] at hb he
    exact h.distinct a b ha hb he
  · have hold := h.subscribed key name a hmem
    have hsid : a ≠ sid := by
      rintro rfl
      rw [hnone] at hold
      cases hold.2.2
    rw [hother a hsid]
    exact hold
  · by_cases hsid : a = sid
    · subst hsid
      rw [hself]
      show handler.places (w.sessions a).channel
      rw [hnone]
      exact hplaces
    · rw [hother a hsid]
      exact h.placed a

/-! ## Moves that keep every name -/

/-- A session moves without a change of its name, and channels only lose subscribers. -/
theorem Ok.moved (h : w.Ok cfg) {w' : World} (sid : SessionId) (hok : w'.inner.Ok cfg)
    (hnames : w'.names = w.names)
    (hsubs : ∀ key, w'.inner.subs key ⊆ w.inner.subs key)
    (hqueued : ∀ key, ∀ event ∈ w'.inner.queued key,
      event ∈ w.inner.queued key ∨ event.event = .leave)
    (hothers : ∀ sid', sid' ≠ sid → (w'.sessions sid').displayName = (w.sessions sid').displayName ∧
      (w'.sessions sid').channel = (w.sessions sid').channel ∧
      (w'.sessions sid').handler = (w.sessions sid').handler)
    (hname : (w'.sessions sid).displayName = (w.sessions sid).displayName)
    (hnamed : (w'.sessions sid).named = (w.sessions sid).named)
    (hchannel : (w'.sessions sid).channel = (w.sessions sid).channel ∨
      ∀ key name, (name, sid) ∉ w'.inner.subs key)
    (hplaces : (w'.sessions sid).handler.places (w'.sessions sid).channel) : w'.Ok cfg := by
  have hsame : ∀ sid', (w'.sessions sid').displayName = (w.sessions sid').displayName ∧
      (w'.sessions sid').named = (w.sessions sid').named := by
    intro sid'
    by_cases he : sid' = sid
    · subst he
      exact ⟨hname, hnamed⟩
    · obtain ⟨hn, _, hh⟩ := hothers sid' he
      exact ⟨hn, by rw [ChatSession.named, hh, ChatSession.named]⟩
  refine ⟨hok, fun sid' hn => ?_, fun a b ha hb => ?_, fun key name sid' hmem => ?_, fun sid' => ?_,
    fun key event hevent => ?_⟩
  · rw [hnames, (hsame sid').1]
    exact h.held sid' ((hsame sid').2 ▸ hn)
  · rw [(hsame a).1, (hsame b).1]
    exact h.distinct a b ((hsame a).2 ▸ ha) ((hsame b).2 ▸ hb)
  · obtain ⟨hn, hd, hc⟩ := h.subscribed key name sid' (hsubs key hmem)
    refine ⟨(hsame sid').2.trans hn, (hsame sid').1.trans hd, ?_⟩
    by_cases he : sid' = sid
    · subst he
      rcases hchannel with hchannel | hnone
      · exact hchannel.trans hc
      · exact absurd hmem (hnone key name)
    · exact (hothers sid' he).2.1.trans hc
  · by_cases he : sid' = sid
    · subst he
      exact hplaces
    · rw [(hothers sid' he).2.1, (hothers sid' he).2.2]
      exact h.placed sid'
  · rcases hqueued key event hevent with hold | hleave
    · exact h.notices key event hold
    · exact hleave

theorem setSession_others (w : World) (sid : SessionId) (s : ChatSession) (sid' : SessionId)
    (h : sid' ≠ sid) : ((w.setSession sid s).sessions sid').displayName =
        (w.sessions sid').displayName ∧
      ((w.setSession sid s).sessions sid').channel = (w.sessions sid').channel ∧
      ((w.setSession sid s).sessions sid').handler = (w.sessions sid').handler := by
  rw [setSession_of_ne w h]
  exact ⟨rfl, rfl, rfl⟩

theorem Ok.rests (h : w.Ok cfg) {sid : SessionId} {inner : Inner SessionId} {s : ChatSession}
    {action : Action} (hkeeps : w.inner.Keeps inner) (hok : inner.Ok cfg)
    (hs : Rests cfg w action sid (w.sessions sid) s) :
    ({ w with inner }.setSession sid s).Ok cfg := by
  have hsubs : ∀ key, inner.subs key = w.inner.subs key := hkeeps.subs
  refine h.moved sid hok rfl (fun key => ?_) (fun key event hevent => Or.inl ?_)
    (setSession_others _ sid s) ?_ ?_ ?_ ?_
  · show inner.subs key ⊆ w.inner.subs key
    rw [hsubs]
    exact List.Subset.refl _
  · exact hkeeps.queued key ▸ hevent
  · rw [setSession_self]
    exact hs.displayName
  · rw [setSession_self]
    have hbefore : (w.sessions sid).named = true := by
      rcases hs.before with he | ⟨_, _, he⟩ <;> rw [ChatSession.named, he]
    rw [hbefore]
    rcases hs.after with he | ⟨_, _, _, he, _⟩ | ⟨_, ⟨_, _, he, _⟩ | ⟨_, he⟩ | he⟩ <;>
      rw [ChatSession.named, he]
  · rw [setSession_self]
    rcases hs.channel with he | ⟨_, key, hkey, hmember⟩
    · exact Or.inl he
    · refine Or.inr fun k name hmem => ?_
      have hmem' : (name, sid) ∈ w.inner.subs k := hsubs k ▸ hmem
      obtain ⟨_, hname, hchannel⟩ := h.subscribed k name sid hmem'
      obtain rfl : key = k := Option.some.inj (hkey.symm.trans hchannel)
      have hin := h.inner.isMember_iff_subs.mpr ⟨_, hmem', congrArg _ hname.symm⟩
      rw [hmember] at hin
      cases hin
  · rw [setSession_self]
    rcases hs.after with he | ⟨_, _, _, he, haside⟩ | ⟨hnone, ⟨_, _, he, _⟩ | ⟨_, he⟩ | he⟩
    · rw [he]
      trivial
    · rw [he]
      exact haside
    · rw [he]
      exact hnone
    · rw [he]
      exact hnone
    · rw [he]
      exact hnone

theorem Ok.joins (h : w.Ok cfg) {sid : SessionId} {asked requested : List UInt8} {flags : UInt32}
    {joiner : Joiner SessionId} {joined : JoinedChannel} {existing : List ChannelOccupant}
    {inner : Inner SessionId}
    (hbefore : (w.sessions sid).handler = .joining asked requested)
    (hname : joiner.displayName = (w.sessions sid).displayName) (hout : joiner.out = sid)
    (hkey : joined.key = normalizeChannelName requested) (hok : inner.Ok cfg)
    (harrives : w.inner.Arrives (normalizeChannelName requested) (joiner.displayName, joiner.out)
      inner) :
    ({ w with inner }.setSession sid
      { w.sessions sid with
        flags
        channel := some joined.key
        handler := .showing asked joined existing }).Ok cfg := by
  have hplaced := h.placed sid
  rw [hbefore] at hplaced
  set s : ChatSession := { w.sessions sid with
    flags, channel := some joined.key, handler := .showing asked joined existing } with hs
  have hself : ({ w with inner }.setSession sid s).sessions sid = s := setSession_self _ _ _
  have hother : ∀ a, a ≠ sid → ({ w with inner }.setSession sid s).sessions a = w.sessions a :=
    fun a he => setSession_of_ne _ he s
  have hsame : ∀ a, (({ w with inner }.setSession sid s).sessions a).displayName =
      (w.sessions a).displayName ∧
      (({ w with inner }.setSession sid s).sessions a).named = (w.sessions a).named := by
    intro a
    by_cases he : a = sid
    · subst he
      rw [hself]
      exact ⟨rfl, by rw [ChatSession.named, ChatSession.named, hbefore]⟩
    · rw [hother a he]
      exact ⟨rfl, rfl⟩
  refine ⟨hok, fun a ha => ?_, fun a b ha hb he => ?_, fun k name a hmem => ?_, fun a => ?_,
    fun k event hevent => ?_⟩
  · rw [(hsame a).1]
    exact h.held a ((hsame a).2 ▸ ha)
  · rw [(hsame a).1, (hsame b).1] at he
    exact h.distinct a b ((hsame a).2 ▸ ha) ((hsame b).2 ▸ hb) he
  · have hmem' : (name, a) ∈ inner.subs k := hmem
    rw [harrives.subs, List.mem_append] at hmem'
    rcases hmem' with hold | hnew
    · have hsub := h.subscribed k name a hold
      have he : a ≠ sid := by
        rintro rfl
        rw [show (w.sessions a).channel = none from hplaced] at hsub
        cases hsub.2.2
      rw [hother a he]
      exact hsub
    · split at hnew
      · rename_i hk
        obtain ⟨rfl, rfl⟩ := Prod.mk.inj (List.mem_singleton.mp hnew)
        rw [hout, hself, hk, ← hkey]
        exact ⟨rfl, hname.symm, rfl⟩
      · cases hnew
  · by_cases he : a = sid
    · subst he
      rw [hself]
      rfl
    · rw [hother a he]
      exact h.placed a
  · exact h.notices k event (harrives.queued k ▸ hevent)

/-- A session goes on to another handler, and whoever is sent something, only notices are queued. -/
theorem Ok.goesOn (h : w.Ok cfg) {w' : World} (sid : SessionId) (handler : Handler)
    (hok : w'.inner.Ok cfg) (hnames : w'.names = w.names) (hsubs : w'.inner.subs = w.inner.subs)
    (hqueued : ∀ key, ∀ event ∈ w'.inner.queued key,
      event ∈ w.inner.queued key ∨ event.event = .leave)
    (hothers : ∀ sid', sid' ≠ sid → ∃ events, w'.sessions sid' = (w.sessions sid').receive events)
    (hself : ∃ events, w'.sessions sid = { w.sessions sid with handler }.receive events)
    (hnamed : { w.sessions sid with handler }.named = (w.sessions sid).named)
    (hplaces : handler.places (w.sessions sid).channel) : w'.Ok cfg := by
  obtain ⟨events, hself⟩ := hself
  refine h.moved sid hok hnames (fun key => ?_) hqueued (fun sid' he => ?_) ?_ ?_
    (Or.inl ?_) ?_
  · rw [hsubs]
    exact List.Subset.refl _
  · obtain ⟨events, hother⟩ := hothers sid' he
    rw [hother]
    exact ⟨rfl, rfl, rfl⟩
  · rw [hself]
    rfl
  · rw [hself]
    exact hnamed
  · rw [hself]
    rfl
  · rw [hself]
    exact hplaces

theorem deliver_others (w : World) (sent : List (Delivery SessionId)) (sid : SessionId)
    (inner : Inner SessionId) (s : ChatSession) (sid' : SessionId) (h : sid' ≠ sid) :
    ∃ events, ({ w.deliver sent with inner }.setSession sid s).sessions sid' =
      (w.sessions sid').receive events := by
  rw [setSession_of_ne _ h]
  exact ⟨_, rfl⟩

theorem broadcast_queued {inner : Inner SessionId} {receivers : Receivers SessionId} {key k : Key}
    {wire event : ChatEvent} {exclude base : Option Text}
    (he : event ∈ (inner.broadcast receivers key wire exclude base).2.2.queued k) :
    event ∈ inner.queued k := by
  rw [Inner.broadcast_snd, (Inner.flushLeaves_keeps inner key).2.2] at he
  split at he
  · cases he
  · exact he

theorem Ok.broadcasts (h : w.Ok cfg) {sid : SessionId} (hnamed : (w.sessions sid).named = true)
    (receivers : Receivers SessionId) (key : Key) (wire : ChatEvent) (exclude base : Option Text)
    {s : ChatSession}
    (hs : ∃ events, s = { ({ w with inner :=
      (w.inner.broadcast receivers key wire exclude base).2.2 }.deliver
        (w.inner.broadcast receivers key wire exclude base).2.1).sessions sid with
          handler := .idle }.receive events) :
    (({ w with inner := (w.inner.broadcast receivers key wire exclude base).2.2 }.deliver
      (w.inner.broadcast receivers key wire exclude base).2.1).setSession sid s).Ok cfg := by
  obtain ⟨events, rfl⟩ := hs
  refine h.goesOn sid .idle
    (h.inner.exec (.broadcast receivers key wire exclude base)) rfl
    (Inner.broadcast_subs receivers w.inner key wire exclude base)
    (fun k event he => Or.inl (broadcast_queued he)) (deliver_others w _ sid _ _)
    ⟨sentTo sid (w.inner.broadcast receivers key wire exclude base).2.1 ++ events, ?_⟩
    hnamed.symm trivial
  rw [setSession_self]
  simp only [ChatSession.receive, deliver, List.append_assoc]

theorem enqueueLeave_queued_leave {inner : Inner SessionId} {key : Key} {frame : ChatEvent}
    (hleave : frame.event = .leave) : ∀ k, ∀ event ∈ (inner.enqueueLeave key frame).queued k,
      event ∈ inner.queued k ∨ event.event = .leave := by
  intro k event he
  rw [Inner.enqueueLeave_queued, List.mem_append] at he
  rcases he with hold | hnew
  · exact Or.inl hold
  · split at hnew
    · rw [List.mem_singleton.mp hnew]
      exact Or.inr hleave
    · cases hnew

theorem Ok.moves (h : w.Ok cfg) {action : Action} {w' : World} (hm : Moves cfg w action w') :
    w'.Ok cfg := by
  cases hm with
  | stays => exact h
  | rests _ sid inner s hkeeps hok hs => exact h.rests hkeeps hok hs
  | claims _ sid base s hbefore hname hhandler =>
    refine h.claims ?_ hname hhandler
    rcases hbefore with ⟨he, _⟩ | ⟨_, he⟩ <;> rw [ChatSession.named, he]
  | releases _ sid handler hbefore => exact h.releases hbefore
  | leaves _ sid key next s hbefore hchannel hname _ hnone hhandler _ =>
    have hdeparts := Inner.leaveChannel_departs h.inner key s.displayName
    refine h.moved sid (h.inner.exec (.leaveChannel key s.displayName)) rfl
      hdeparts.subset_subs (fun k event he => Or.inl (hdeparts.subset_queued k he))
      (setSession_others _ sid s) ?_ ?_ (Or.inr fun k name hmem => ?_) ?_
    · rw [setSession_self]
      exact hname
    · rw [setSession_self, ChatSession.named, hhandler, ChatSession.named, hbefore]
    · obtain ⟨hold, hgone⟩ := (hdeparts.subs k _).mp hmem
      obtain ⟨_, hn, hc⟩ := h.subscribed k name sid hold
      obtain rfl : key = k := Option.some.inj (hchannel.symm.trans hc)
      exact hgone ⟨rfl, by rw [hname, hn]⟩
    · rw [setSession_self, hhandler]
      exact hnone
  | notices _ sid key next hbefore =>
    have hplaced := h.placed sid
    rw [hbefore] at hplaced
    refine h.goesOn sid next.handler
      (h.inner.exec (.enqueueLeave key (w.sessions sid).leaveEvent)) rfl
      (Inner.enqueueLeave_keeps w.inner key _).2 (enqueueLeave_queued_leave rfl)
      (fun sid' he => ⟨[], ?_⟩) ⟨[], ?_⟩ ?_ ?_
    · rw [setSession_of_ne _ he, ChatSession.receive, List.append_nil]
    · rw [setSession_self, ChatSession.receive, List.append_nil]
    · rw [ChatSession.named, ChatSession.named, hbefore]
      cases next <;> rfl
    · cases next
      · trivial
      · exact hplaced
      · exact hplaced
      · exact hplaced
  | joins _ sid asked requested flags c joiner joined inner hbefore hname hout hc habsent hkey
      hdisplay hroom =>
    exact h.joins hbefore hname hout hkey
      (h.inner.replaces hroom (h.inner.entered hc habsent)) hroom.arrives
  | shows _ sid asked joined existing hbefore =>
    refine h.moved sid h.inner rfl (fun _ => List.Subset.refl _) (fun _ _ => Or.inl)
      (setSession_others _ sid _) ?_ ?_ (Or.inl ?_) ?_
    · rw [setSession_self]
      rfl
    · rw [setSession_self, ChatSession.named, ChatSession.named, hbefore]
      rfl
    · rw [setSession_self]
      rfl
    · have hplaced := h.placed sid
      rw [hbefore] at hplaced
      rw [setSession_self]
      exact hplaced
  | arrives ignores sid asked joined events hbefore haside =>
    exact h.broadcasts (by rw [ChatSession.named, hbefore]) _ _ _ _ _ ⟨events, rfl⟩
  | speaks ignores sid key event exclude base hbefore =>
    refine h.broadcasts (by rw [ChatSession.named, hbefore]) _ _ _ _ _ ⟨[], ?_⟩
    rw [ChatSession.receive, List.append_nil]
  | removes raw muted found sid key target targetOut verb inner hbefore hchannel hcommand
      hmay hremoved =>
    have hdeparts := hremoved.departs h.inner
    refine h.moved sid (h.inner.removed hremoved) rfl
      hdeparts.subset_subs (fun k event he => Or.inl (hdeparts.subset_queued k he))
      (setSession_others _ sid _) ?_ ?_ (Or.inl ?_) ?_
    · rw [setSession_self]
    · rw [setSession_self, ChatSession.named, ChatSession.named, hbefore]
    · rw [setSession_self]
    · rw [setSession_self]
      trivial
  | tells _ sid key target targetOut verb sent events hbefore hsent hevents =>
    refine h.goesOn sid .idle ?_ rfl ?_ (enqueueLeave_queued_leave rfl)
      (deliver_others w _ sid _ _) ⟨sentTo sid sent ++ events, ?_⟩ ?_ trivial
    · exact h.inner.exec (.enqueueLeave key ⟨.leave, 0, target, []⟩)
    · exact (Inner.enqueueLeave_keeps w.inner key _).2
    · rw [setSession_self]
      simp only [ChatSession.receive, deliver, List.append_assoc]
    · rw [ChatSession.named, ChatSession.named, hbefore]
  | flushes walk =>
    have hkeeps := Inner.flushAll_keeps w.inner ((walk.order w.inner.pendingLeaves).map Sigma.fst)
    refine h.goesOn 0 (w.sessions 0).handler (h.inner.exec (.flushPending walk)) rfl hkeeps.2.1
      (fun k event he => Or.inl ?_) (fun sid' _ => ⟨_, rfl⟩) ⟨_, rfl⟩ rfl (h.placed 0)
    have he' : event ∈ (w.inner.flushAll _).2.queued k := he
    rw [hkeeps.2.2] at he'
    split at he'
    · cases he'
    · exact he'

theorem Ok.step (h : w.Ok cfg) (action : Action) : (w.step cfg action).Ok cfg :=
  h.moves (step_moves h.inner action)

/-- A session that has not logged on takes no part. -/
theorem offline_moves {action : Action} {w' : World} (hm : Moves cfg w action w') {a : SessionId}
    (hoffline : (w.sessions a).handler = .offline) (haction : action.logsOn ≠ some a) :
    (w'.sessions a).handler = .offline := by
  -- the session that moves is another one, as its handler shows
  have hne : ∀ {sid}, (w.sessions sid).handler ≠ .offline → a ≠ sid := by
    rintro sid h rfl
    exact h hoffline
  cases hm with
  | stays => exact hoffline
  | rests _ sid inner s hkeeps hinner hs =>
    have ha : a ≠ sid := hne (by rcases hs.before with he | ⟨_, _, he⟩ <;> rw [he] <;> nofun)
    rw [setSession_of_ne _ ha]
    exact hoffline
  | claims _ sid base s hbefore hname hhandler =>
    have ha : a ≠ sid := by
      rcases hbefore with ⟨_, he⟩ | ⟨_, he⟩
      · rintro rfl
        exact haction he
      · exact hne (by rw [he]; nofun)
    rw [setSession_of_ne _ ha]
    exact hoffline
  | releases _ sid handler hbefore =>
    have ha : a ≠ sid := hne (by rcases hbefore with ⟨_, he, _⟩ | ⟨he, _⟩ <;> rw [he] <;> nofun)
    rw [releaseName, setSession_of_ne _ ha]
    exact hoffline
  | leaves _ sid key next s hbefore =>
    rw [setSession_of_ne _ (hne (by rw [hbefore]; nofun))]
    exact hoffline
  | notices _ sid key next hbefore =>
    rw [setSession_of_ne _ (hne (by rw [hbefore]; nofun))]
    exact hoffline
  | joins _ sid asked requested flags c joiner joined inner hbefore =>
    rw [setSession_of_ne _ (hne (by rw [hbefore]; nofun))]
    exact hoffline
  | shows _ sid asked joined existing hbefore =>
    rw [setSession_of_ne _ (hne (by rw [hbefore]; nofun))]
    exact hoffline
  | arrives ignores sid asked joined events hbefore =>
    rw [setSession_of_ne _ (hne (by rw [hbefore]; nofun))]
    exact hoffline
  | speaks ignores sid key event exclude base hbefore =>
    rw [setSession_of_ne _ (hne (by rw [hbefore]; nofun))]
    exact hoffline
  | removes raw muted found sid key target targetOut verb inner hbefore =>
    rw [setSession_of_ne _ (hne (by rw [hbefore]; nofun))]
    exact hoffline
  | tells _ sid key target targetOut verb sent events hbefore =>
    rw [setSession_of_ne _ (hne (by rw [hbefore]; nofun))]
    exact hoffline
  | flushes walk => exact hoffline

theorem offline_run (hok : w.Ok cfg) {a : SessionId} (hoffline : (w.sessions a).handler = .offline)
    {actions : List Action} (hactions : ∀ action ∈ actions, action.logsOn ≠ some a) :
    ((run (World.step cfg) w actions).sessions a).handler = .offline := by
  induction actions generalizing w with
  | nil => exact hoffline
  | cons action actions ih =>
    refine ih (hok.step action) ?_ fun later hlater => hactions later (by simp [hlater])
    exact offline_moves (step_moves hok.inner action) hoffline (hactions action (by simp))

end World

end CommandCenter.Daemon
