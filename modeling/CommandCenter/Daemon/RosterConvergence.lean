import CommandCenter.Daemon.RosterNotices

/-!
# Clients' rosters converge

Notices of departure carry a name and wait in a queue, so one that is delivered late takes away a
member that has come back, and one that is delivered early misses a client that is still waiting for
its snapshot. Where every delivery comes in time, the rosters are right as soon as nothing is under
way.

* `Tracking.moves`: a timely step keeps every roster on track.
* `rosters_converge`: so once nothing is under way every client shows the members of its channel.
-/

namespace CommandCenter.Daemon

open Rust CommandCenter.Core Proto Library

namespace World

variable {cfg : NodeConfig} {w w' : World} {key : Key} {sid : SessionId}

/-- An arrival is announced in time: of a member, or of one of whom a notice is still to be queued;
and those who wait for their snapshot will find a member in it. -/
structure ArrivalTimely (w : World) (key : Key) (sid : SessionId) : Prop where
  known : (w.sessions sid).displayName ∈ w.members key ∪ w.toQueue key
  shown : (w.sessions sid).displayName ∈ w.members key → ∀ s ∈ w.inner.subs key, s.2 ≠ sid →
    (w.sessions s.2).awaits → (w.sessions s.2).handler.showsOld (w.sessions sid).displayName

/-- What a step delivers comes in time, and an operator who removes a member spells its name as it
is shown. -/
def Timely (w : World) : Action → Prop
  | .logOn .. => True
  | .start sid input =>
    let s := w.sessions sid
    s.handler = .idle → ∀ key target, s.channel = some key → input.removes = some target →
      w.inner.mayRemove key s.account target = true → ∀ name ∈ w.members key,
        name.toAsciiLowercase = target.toAsciiLowercase → name = target
  | .resume sid _ =>
    match (w.sessions sid).handler with
    | .arriving _ joined => w.FlushTimely joined.key ∧ w.ArrivalTimely joined.key sid
    | .speaking key _ _ => w.FlushTimely key
    | _ => True
  | .flushPending _ => ∀ key, w.FlushTimely key

/-! ## Deliveries one after the other -/

theorem deliver_append (w : World) (sent sent' : List (Delivery SessionId)) :
    w.deliver (sent ++ sent') = (w.deliver sent).deliver sent' := by
  unfold deliver
  congr 1
  funext sid
  rw [sentTo_append, ChatSession.receive, ← List.append_assoc]
  rfl

theorem broadcast_deliver {receivers : Receivers SessionId}
    (hfull : ∀ out, receivers.full out = false) (w : World) (key : Key) (wire : ChatEvent)
    (exclude base : Option Text) :
    { w with inner := (w.inner.broadcast receivers key wire exclude base).2.2 }.deliver
        (w.inner.broadcast receivers key wire exclude base).2.1 =
      (w.flushOne key).deliver ((w.flushOne key).telling key
        (fun s => !Inner.Shut receivers exclude base s) wire) := by
  have hsubs : (w.flushOne key).inner.subs key = w.inner.subs key :=
    congrFun (Inner.flushLeaves_keeps w.inner key).2.1 key
  rw [Inner.broadcast_sent hfull, deliver_append, Inner.broadcast_snd, telling, hsubs]
  rfl

theorem flushAll_deliver (w : World) (keys : List Key) :
    { w with inner := (w.inner.flushAll keys).2 }.deliver (w.inner.flushAll keys).1 =
      keys.foldl flushOne w := by
  induction keys generalizing w with
  | nil =>
    show w.deliver [] = w
    unfold deliver
    simp only [sentTo_nil, ChatSession.receive, List.append_nil]
  | cons key keys ih =>
    rw [List.foldl_cons, ← ih]
    show { w with inner := ((w.inner.flushLeaves key).2.flushAll keys).2 }.deliver
      ((w.inner.flushLeaves key).1 ++ ((w.inner.flushLeaves key).2.flushAll keys).1) = _
    rw [deliver_append]
    rfl

theorem FlushTimely.flushOne {key' : Key} (h : w.FlushTimely key') (key : Key) :
    (w.flushOne key).FlushTimely key' := by
  obtain ⟨_, hsubs, hqueued⟩ := Inner.flushLeaves_keeps w.inner key
  have hnames : ∀ name ∈ namesOf ((w.flushOne key).inner.queued key'),
      name ∈ namesOf (w.inner.queued key') := by
    intro name hname
    rw [show (w.flushOne key).inner.queued key' = _ from hqueued key'] at hname
    split at hname
    · cases hname
    · exact hname
  refine ⟨fun name hname a ha => ?_, fun name hname s hs hshows => ?_⟩
  · rw [show (w.flushOne key).inner.subs key' = _ from congrFun hsubs key'] at ha
    exact h.member name (hnames name hname) a ha
  · rw [show (w.flushOne key).inner.subs key' = _ from congrFun hsubs key'] at hs
    have hmembers : (w.flushOne key).members key' = w.members key' :=
      members_congr (congrFun hsubs key')
    rw [hmembers]
    exact h.snapshot name (hnames name hname) s hs hshows

theorem Tracking.foldl_flushOne (h : w.Tracking) (hok : w.Ok cfg)
    (htimely : ∀ key, w.FlushTimely key) (keys : List Key) :
    (keys.foldl World.flushOne w).Tracking := by
  induction keys generalizing w with
  | nil => exact h
  | cons key keys ih =>
    exact ih (h.flushOne hok (htimely key)) (hok.flushOne key)
      fun key' => (htimely key').flushOne key

/-! ## Steps -/

theorem Rests.seen {action : Action} {s' : ChatSession}
    (h : Rests cfg w action sid (w.sessions sid) s') : s'.seen = (w.sessions sid).seen := by
  have hbefore : ¬ (w.sessions sid).awaits := by
    rcases h.before with he | ⟨_, _, he⟩ <;> exact not_awaits he rfl
  have hafter : ¬ s'.awaits := by
    rcases h.after with he | ⟨_, _, _, he, _⟩ | ⟨_, ⟨_, _, he, _⟩ | ⟨_, he⟩ | he⟩ <;>
      exact not_awaits he rfl
  obtain ⟨events, hinbox, haside⟩ := h.inbox
  rw [ChatSession.seen, ChatSession.seen, ChatSession.coming_of_not_awaits hafter,
    ChatSession.coming_of_not_awaits hbefore, List.append_nil, List.append_nil, hinbox,
    viewOf_append, foldl_hear_asides haside]

/-- A session without a part in what is under way changes what nobody is shown. -/
theorem Tracking.settles (h : w.Tracking) {inner : Inner SessionId} {names : ActiveNames}
    {s : ChatSession} (hkeeps : w.inner.Keeps inner)
    (hannounces : (w.sessions sid).announces = none)
    (henters : (w.sessions sid).handler.enters = none)
    (hseen : ∀ key name, (name, sid) ∈ w.inner.subs key → s.seen = (w.sessions sid).seen) :
    ({ w with inner, names }.setSession sid s).Tracking := by
  have hother : ∀ a, a ≠ sid →
      ({ w with inner, names }.setSession sid s).sessions a = w.sessions a :=
    fun a ha => setSession_of_ne _ ha s
  refine h.goesOn (funext hkeeps.display) (funext hkeeps.subs) (fun key t ht => ?_)
    (fun key _ => leaving_subset sid (fun a ha => ?_) ?_ fun name hname => ?_)
    (fun key => arriving_subset sid (fun a ha => ?_) fun he => ?_)
  · by_cases ha : t.2 = sid
    · rw [ha, setSession_self]
      exact hseen key t.1 (ha ▸ ht)
    · rw [hother t.2 ha]
  · rw [hother a ha]
  · exact hkeeps.queued key ▸ List.Subset.refl _
  · rw [hannounces] at hname
    cases hname
  · rw [hother a ha]
    exact ⟨rfl, rfl⟩
  · rw [henters] at he
    cases he

theorem Ok.not_subscribed_of_none (h : w.Ok cfg) (hnone : (w.sessions sid).channel = none)
    (key : Key) (name : Text) : (name, sid) ∉ w.inner.subs key := by
  intro hmem
  obtain ⟨_, _, hchannel⟩ := h.subscribed key name sid hmem
  rw [hnone] at hchannel
  cases hchannel

/-- What a session says of itself is kept from itself alone. -/
theorem Ok.shut_iff (h : w.Ok cfg) (hnamed : (w.sessions sid).named = true)
    {receivers : Receivers SessionId} {s : Text × SessionId} (hs : s ∈ w.inner.subs key) :
    Inner.Shut receivers (some (w.sessions sid).displayName) none s = true ↔ s.2 = sid := by
  obtain ⟨hnamed', hname, _⟩ := h.subscribed key s.1 s.2 hs
  rw [Inner.Shut, Option.any_some, Option.any_none, Bool.or_false, Text.eqIgnoreAsciiCase_iff,
    ← hname]
  exact ⟨h.distinct s.2 sid hnamed' hnamed, fun he => by rw [he]⟩

/-- A session comes to rest, and whoever is sent something, it tells nothing of who is there. -/
theorem Tracking.hears (h : w.Tracking) {sent : List (Delivery SessionId)}
    (hsent : ∀ d ∈ sent, ∀ event ∈ d.2, aside event = true) {inner : Inner SessionId}
    {s : ChatSession} (hdisplay : inner.display = w.inner.display)
    (hsubs : inner.subs = w.inner.subs) (hqueued : ∀ key, w.inner.queued key ⊆ inner.queued key)
    (hannounces : ∀ key name, w.inner.subs key ≠ [] →
      (w.sessions sid).announces = some (key, name) → name ∈ namesOf (inner.queued key))
    (hawaits : ¬ (w.sessions sid).awaits) (henters : (w.sessions sid).handler.enters = none)
    (hs : ∃ events, s = { (w.deliver sent).sessions sid with handler := .idle }.receive events ∧
      ∀ event ∈ events, aside event = true) :
    ({ w.deliver sent with inner }.setSession sid s).Tracking := by
  obtain ⟨events, rfl, hevents⟩ := hs
  have hsentTo : ∀ a, ∀ event ∈ sentTo a sent, aside event = true := by
    intro a event hevent
    obtain ⟨d, hd, hin⟩ := List.mem_flatMap.mp hevent
    exact hsent d (List.mem_filter.mp hd).1 event hin
  have hother : ∀ a, a ≠ sid →
      ({ w.deliver sent with inner }.setSession sid
        ({ (w.deliver sent).sessions sid with handler := .idle }.receive events)).sessions a =
          (w.sessions a).receive (sentTo a sent) := fun a ha => setSession_of_ne _ ha _
  refine h.goesOn hdisplay hsubs (fun key t ht => ?_)
    (fun key hne => leaving_subset sid (fun a ha => ?_) (hqueued key) fun name hname => ?_)
    (fun key => arriving_subset sid (fun a ha => ?_) fun he => ?_)
  · by_cases ha : t.2 = sid
    · rw [ha, setSession_self, ChatSession.seen_receive_asides _ hevents,
        ← ChatSession.seen_receive_asides (w.sessions sid) (hsentTo sid)]
      exact seen_congr hawaits (not_awaits rfl rfl) rfl
    · rw [hother t.2 ha, ChatSession.seen_receive_asides _ (hsentTo t.2)]
  · rw [hother a ha]
    rfl
  · exact Or.inl (hannounces key name hne hname)
  · rw [hother a ha]
    exact ⟨rfl, rfl⟩
  · rw [henters] at he
    cases he

theorem Tracking.rests (h : w.Tracking) {action : Action} {inner : Inner SessionId}
    {s : ChatSession} (hkeeps : w.inner.Keeps inner)
    (hs : Rests cfg w action sid (w.sessions sid) s) :
    ({ w with inner }.setSession sid s).Tracking := by
  refine h.settles hkeeps ?_ ?_ fun _ _ _ => Rests.seen hs
  · rw [ChatSession.announces]
    rcases hs.before with he | ⟨_, _, he⟩ <;> rw [he]
  · rcases hs.before with he | ⟨_, _, he⟩ <;> rw [he] <;> rfl

theorem Tracking.claims (h : w.Tracking) (hok : w.Ok cfg) {action : Action} {names : ActiveNames}
    {s : ChatSession}
    (hbefore : (w.sessions sid).handler = .offline ∧ action.logsOn = some sid ∨
      ∃ chatName, (w.sessions sid).handler = .claiming chatName) :
    ({ w with names }.setSession sid s).Tracking := by
  have hunnamed : (w.sessions sid).named = false := by
    rcases hbefore with ⟨he, _⟩ | ⟨_, he⟩ <;> rw [ChatSession.named, he]
  refine h.settles (.refl _) ?_ ?_ fun key name hmem => ?_
  · rw [ChatSession.announces]
    rcases hbefore with ⟨he, _⟩ | ⟨_, he⟩ <;> rw [he]
  · rcases hbefore with ⟨he, _⟩ | ⟨_, he⟩ <;> rw [he] <;> rfl
  · exact absurd hmem (hok.not_subscribed hunnamed key name)

/-- A session takes a member off its channel, and has a notice of it to queue. -/
theorem Tracking.withdraws (h : w.Tracking) (hidle : (w.sessions sid).handler = .idle)
    {name : Text} {inner : Inner SessionId} {s : ChatSession}
    (hdeparts : w.inner.Departs key name inner)
    (hseen : ∀ k other, (other, sid) ∈ inner.subs k → s.seen = (w.sessions sid).seen)
    (hgone : ∀ other ∈ w.members key, other.toAsciiLowercase = name.toAsciiLowercase →
      s.announces = some (key, other)) :
    ({ w with inner }.setSession sid s).Tracking := by
  refine h.departs hdeparts (fun k t ht => ?_) (fun other hmem he => ?_)
    (fun k hne => leaving_subset sid (fun a ha => ?_) ?_ fun name hannounces => ?_)
    (fun k => arriving_subset sid (fun a ha => ?_) fun henters => ?_)
  · by_cases ha : t.2 = sid
    · rw [ha, setSession_self]
      exact hseen k t.1 (ha ▸ ht)
    · rw [setSession_of_ne _ ha]
  · refine Or.inr ⟨sid, ?_⟩
    rw [setSession_self]
    exact hgone other hmem he
  · rw [setSession_of_ne _ ha]
  · rcases hdeparts.queued k with hq | ⟨hq, _⟩
    · exact hq ▸ List.Subset.refl _
    · exact absurd hq hne
  · rw [ChatSession.announces, hidle] at hannounces
    cases hannounces
  · rw [setSession_of_ne _ ha]
    exact ⟨rfl, rfl⟩
  · rw [hidle] at henters
    cases henters

theorem Tracking.leaves (h : w.Tracking) (hok : w.Ok cfg) {next : AfterLeave} {s : ChatSession}
    (hbefore : (w.sessions sid).handler = .idle) (hchannel : (w.sessions sid).channel = some key)
    (hname : s.displayName = (w.sessions sid).displayName)
    (hhandler : s.handler = .noticeLeave key next) :
    ({ w with inner := (w.inner.leaveChannel key s.displayName).2 }.setSession sid s).Tracking := by
  have hdeparts := Inner.leaveChannel_departs hok.inner key s.displayName
  refine h.withdraws hbefore hdeparts (fun k other hmem => ?_) fun other hmem he => ?_
  · obtain ⟨hold, hout⟩ := (hdeparts.subs k (other, sid)).mp hmem
    obtain ⟨_, hsame, hwas⟩ := hok.subscribed k other sid hold
    exact absurd ⟨Option.some.inj (hwas.symm.trans hchannel), by rw [hname, hsame]⟩ hout
  · obtain ⟨a, ha⟩ := hmem
    obtain ⟨hnamed, hsame, _⟩ := hok.subscribed key other a ha
    have hself : a = sid := by
      refine hok.distinct a sid hnamed (by rw [ChatSession.named, hbefore]) ?_
      rw [hsame, he, hname]
    rw [ChatSession.announces, hhandler, ← hsame, hself, hname]

theorem Tracking.notices (h : w.Tracking) (hok : w.Ok cfg) {next : AfterLeave}
    (hbefore : (w.sessions sid).handler = .noticeLeave key next) :
    ({ w with inner := w.inner.enqueueLeave key (w.sessions sid).leaveEvent }.setSession sid
      { w.sessions sid with handler := next.handler }).Tracking := by
  obtain ⟨hdisplay, hsubs⟩ := Inner.enqueueLeave_keeps w.inner key (w.sessions sid).leaveEvent
  have hplaced := hok.placed sid
  rw [hbefore] at hplaced
  refine h.goesOn hdisplay hsubs (fun k t ht => ?_)
    (fun k hne => leaving_subset sid (fun a ha => ?_) ?_ fun name hname => Or.inl ?_)
    (fun k => arriving_subset sid (fun a ha => ?_) fun henters => ?_)
  · have ha : t.2 ≠ sid := by
      rintro rfl
      exact hok.not_subscribed_of_none hplaced k t.1 ht
    rw [setSession_of_ne _ ha]
  · rw [setSession_of_ne _ ha]
  · show _ ⊆ (w.inner.enqueueLeave key _).queued k
    rw [Inner.enqueueLeave_queued]
    exact List.subset_append_left _ _
  · rw [ChatSession.announces, hbefore] at hname
    obtain ⟨rfl, rfl⟩ := Prod.mk.inj (Option.some.inj hname)
    refine mem_namesOf.mpr ⟨(w.sessions sid).leaveEvent, ?_, rfl⟩
    exact Inner.mem_enqueueLeave hne _
  · rw [setSession_of_ne _ ha]
    exact ⟨rfl, rfl⟩
  · rw [hbefore] at henters
    cases henters

theorem Tracking.shows (h : w.Tracking) {asked : List UInt8} {joined : JoinedChannel}
    {existing : List ChannelOccupant}
    (hbefore : (w.sessions sid).handler = .showing asked joined existing) :
    (w.setSession sid ({ w.sessions sid with handler := .arriving asked joined }.receive
      ((w.sessions sid).snapshot joined existing))).Tracking := by
  have hafter : ¬ ({ w.sessions sid with handler := .arriving asked joined }.receive
      ((w.sessions sid).snapshot joined existing)).awaits := not_awaits rfl rfl
  refine h.goesOn rfl rfl (fun key t ht => ?_)
    (fun key _ => leaving_subset sid (fun a ha => ?_) (List.Subset.refl _) fun name hname => ?_)
    (fun key => arriving_subset sid (fun a ha => ?_) fun henters => ⟨sid, ?_, ?_⟩)
  · by_cases ha : t.2 = sid
    · rw [ha, setSession_self, ChatSession.seen, ChatSession.coming_of_not_awaits hafter,
        List.append_nil, ChatSession.seen, ChatSession.coming, hbefore]
      rfl
    · rw [setSession_of_ne _ ha]
  · rw [setSession_of_ne _ ha]
  · rw [ChatSession.announces, hbefore] at hname
    cases hname
  · rw [setSession_of_ne _ ha]
    exact ⟨rfl, rfl⟩
  · rw [hbefore] at henters
    rw [setSession_self]
    exact henters
  · rw [setSession_self]
    rfl

theorem Tracking.arrives (h : w.Tracking) (hok : w.Ok cfg) {ignores : SessionId → Text → Bool}
    {asked : List UInt8} {joined : JoinedChannel} {events : List ChatEvent}
    (hbefore : (w.sessions sid).handler = .arriving asked joined)
    (htimely : w.FlushTimely joined.key) (harrival : w.ArrivalTimely joined.key sid)
    (haside : ∀ event ∈ events, aside event = true) :
    let sent := w.inner.broadcast ⟨fun _ => false, ignores⟩ joined.key
      (w.sessions sid).joinEvent (some (w.sessions sid).displayName) none
    let w' := { w with inner := sent.2.2 }.deliver sent.2.1
    (w'.setSession sid ({ w'.sessions sid with handler := .idle }.receive events)).Tracking := by
  have hsubs : (w.flushOne joined.key).inner.subs = w.inner.subs :=
    (Inner.flushLeaves_keeps w.inner joined.key).2.1
  have hmembers : (w.flushOne joined.key).members joined.key = w.members joined.key :=
    members_congr (congrFun hsubs joined.key)
  dsimp only
  rw [broadcast_deliver fun _ => rfl]
  have hnamed : (w.sessions sid).named = true := by rw [ChatSession.named, hbefore]
  have hbefore' : ((w.flushOne joined.key).sessions sid).handler = .arriving asked joined :=
    hbefore
  refine (h.flushOne hok htimely).announce (hok.flushOne joined.key) hbefore'
    (fun s hs => ?_) ?_ (fun hmem s hs => ?_) rfl haside
  · rw [hsubs] at hs
    rw [Bool.not_eq_true', ← Bool.not_eq_true, hok.shut_iff hnamed hs]
  · rw [hmembers]
    exact harrival.known.imp_right Or.inr
  · exact harrival.shown (hmembers ▸ hmem) s (hsubs ▸ hs)

theorem Tracking.speaks (h : w.Tracking) (hok : w.Ok cfg) {ignores : SessionId → Text → Bool}
    {event : ChatEvent} {exclude base : Option Text}
    (hbefore : (w.sessions sid).handler = .speaking key event exclude)
    (htimely : w.FlushTimely key) :
    let sent := w.inner.broadcast ⟨fun _ => false, ignores⟩ key event exclude base
    let w' := { w with inner := sent.2.2 }.deliver sent.2.1
    (w'.setSession sid { w'.sessions sid with handler := .idle }).Tracking := by
  have hspeaks := hok.placed sid
  rw [hbefore] at hspeaks
  dsimp only
  rw [broadcast_deliver fun _ => rfl]
  have hbefore' : ((w.flushOne key).sessions sid).handler = .speaking key event exclude := hbefore
  refine (h.flushOne hok htimely).hears (fun d hd => ?_) rfl rfl (fun _ => List.Subset.refl _)
    (fun k name _ hname => ?_) (not_awaits hbefore' rfl) (by rw [hbefore']; rfl)
    ⟨[], ?_, fun _ he => absurd he List.not_mem_nil⟩
  · obtain ⟨_, _, rfl⟩ := List.mem_map.mp hd
    exact List.forall_mem_singleton.mpr hspeaks
  · rw [ChatSession.announces, hbefore'] at hname
    cases hname
  · rw [ChatSession.receive, List.append_nil]

theorem Tracking.tells (h : w.Tracking) {target verb : Text} {targetOut : Option SessionId}
    {sent : List (Delivery SessionId)} {events : List ChatEvent}
    (hbefore : (w.sessions sid).handler = .noticeRemoval key target targetOut verb)
    (hsent : ∀ d ∈ sent, ∀ event ∈ d.2, aside event = true)
    (hevents : ∀ event ∈ events, aside event = true) :
    let w' := w.deliver sent
    ({ w' with inner := w.inner.enqueueLeave key ⟨.leave, 0, target, []⟩ }.setSession sid
      ({ w'.sessions sid with handler := .idle }.receive events)).Tracking := by
  obtain ⟨hdisplay, hsubs⟩ := Inner.enqueueLeave_keeps w.inner key ⟨.leave, 0, target, []⟩
  refine h.hears hsent hdisplay hsubs (fun k => ?_) (fun k name hne hname => ?_)
    (not_awaits hbefore rfl) (by rw [hbefore]; rfl) ⟨events, rfl, hevents⟩
  · rw [Inner.enqueueLeave_queued]
    exact List.subset_append_left _ _
  · rw [ChatSession.announces, hbefore] at hname
    obtain ⟨rfl, rfl⟩ := Prod.mk.inj (Option.some.inj hname)
    exact mem_namesOf.mpr ⟨⟨.leave, 0, target, []⟩, Inner.mem_enqueueLeave hne _, rfl⟩

/-- **A timely step** keeps every roster on track. -/
theorem Tracking.moves (h : w.Tracking) (hok : w.Ok cfg) {action : Action}
    (htimely : w.Timely action) (hm : Moves cfg w action w') : w'.Tracking := by
  cases hm with
  | stays => exact h
  | rests _ sid inner s hkeeps hinner hs => exact h.rests hkeeps hs
  | claims _ sid base s hbefore hname hhandler => exact h.claims hok hbefore
  | releases _ sid handler hbefore =>
    have hplaced := hok.placed sid
    refine h.settles (.refl _) ?_ ?_ fun key name hmem => ?_
    · rw [ChatSession.announces]
      rcases hbefore with ⟨_, he, _⟩ | ⟨he, _⟩ <;> rw [he]
    · rcases hbefore with ⟨_, he, _⟩ | ⟨he, _⟩ <;> rw [he] <;> rfl
    · refine absurd hmem (hok.not_subscribed_of_none ?_ key name)
      rcases hbefore with ⟨_, he, _⟩ | ⟨he, _⟩ <;> rw [he] at hplaced <;> exact hplaced
  | leaves _ sid key next s hbefore hchannel hname hinbox hnone hhandler hasks =>
    exact h.leaves hok hbefore hchannel hname hhandler
  | notices _ sid key next hbefore => exact h.notices hok hbefore
  | joins _ sid asked requested flags c joiner joined inner hbefore hname hout hc habsent hkey
      hdisplay hroom =>
    exact h.joins hok hbefore hname hout hc hkey hdisplay hroom
  | shows _ sid asked joined existing hbefore => exact h.shows hbefore
  | arrives ignores sid asked joined events hbefore haside =>
    unfold Timely at htimely
    dsimp only at htimely
    rw [hbefore] at htimely
    exact h.arrives hok hbefore htimely.1 htimely.2 haside
  | speaks ignores sid key event exclude base hbefore =>
    unfold Timely at htimely
    dsimp only at htimely
    rw [hbefore] at htimely
    exact h.speaks hok hbefore htimely
  | removes raw muted found sid key target targetOut verb inner hbefore hchannel hcommand hmay
      hremoved =>
    refine h.withdraws hbefore (hremoved.departs hok.inner) (fun _ _ _ => ?_) fun other hmem he => ?_
    · exact seen_congr (not_awaits hbefore rfl) (not_awaits rfl rfl) rfl
    · obtain rfl := htimely hbefore key target hchannel hcommand hmay other hmem he
      rfl
  | tells _ sid key target targetOut verb sent events hbefore hsent hevents =>
    exact h.tells hbefore hsent hevents
  | flushes walk =>
    rw [show w.inner.flushPending walk = w.inner.flushAll _ from rfl, flushAll_deliver]
    exact h.foldl_flushOne hok htimely _

/-! ## Nothing under way -/

/-- No handler is midway, and no notice is queued. -/
structure Quiet (w : World) : Prop where
  handlers : ∀ sid, (w.sessions sid).handler = .offline ∨ (w.sessions sid).handler = .idle ∨
    (w.sessions sid).handler = .closed
  notices : ∀ key, key ∉ w.inner.pendingLeaves

/-- Once nothing is under way, each member of a channel is shown the channel and its members. -/
def Converged (w : World) : Prop :=
  w.Quiet → ∀ key c sid, w.inner.channels.lookup key = some c → (w.sessions sid).named = true →
    (w.sessions sid).displayName ∈ c.memberNames →
      viewOf (w.sessions sid).inbox = some (Text.asBytes c.display, c.memberNames.toFinset)

theorem tracking_new : new.Tracking := by
  rintro _ _ ⟨⟩

theorem Tracking.converged (h : w.Tracking) (hok : w.Ok cfg) : w.Converged := by
  intro hquiet key c sid hc hnamed hmember
  have hnames := hok.inner.map_fst_subs hc
  rw [← hnames] at hmember
  obtain ⟨s, hs, hsame⟩ := List.mem_map.mp hmember
  obtain ⟨hnamed', hname, _⟩ := hok.subscribed key s.1 s.2 hs
  obtain rfl : s.2 = sid := hok.distinct s.2 sid hnamed' hnamed (by rw [hname, hsame])
  obtain ⟨shown, V, hshown, hview, htracks⟩ := h key s hs
  have hresting : ∀ a, (w.sessions a).announces = none ∧ (w.sessions a).handler.enters = none := by
    intro a
    rcases hquiet.handlers a with he | he | he <;>
      exact ⟨by rw [ChatSession.announces, he], by rw [he]; rfl⟩
  have hleaving : w.leaving key = ∅ := by
    have hqueued : w.inner.queued key = [] := by
      rw [Inner.queued, Inner.room, Finmap.lookup_eq_none.mpr (hquiet.notices key)]
      rfl
    refine Set.eq_empty_of_forall_notMem ?_
    rintro name (hq | ⟨a, ha⟩)
    · rw [hqueued] at hq
      cases hq
    · rw [(hresting a).1] at ha
      cases ha
  have harriving : w.arriving key \ {s.1} = ∅ := by
    refine Set.eq_empty_of_forall_notMem ?_
    rintro name ⟨⟨a, ha, _⟩, _⟩
    rw [(hresting a).2] at ha
    cases ha
  rw [hleaving, harriving] at htracks
  have hmembers : V = c.memberNames.toFinset := by
    ext name
    rw [← Finset.mem_coe, htracks.quiet, ← hnames, List.mem_toFinset]
    simp [members]
  have hdisplay : shown = c.display := by
    rw [Inner.display, Inner.room, hc] at hshown
    exact (Option.some.inj hshown).symm
  have hawaits : ¬ (w.sessions s.2).awaits := by
    rcases hquiet.handlers s.2 with he | he | he <;> exact not_awaits he rfl
  rw [ChatSession.seen, ChatSession.coming_of_not_awaits hawaits, List.append_nil] at hview
  rw [hview, hmembers, hdisplay]

/-- **Clients' rosters converge** in every run that delivers in time: once nothing is under way,
each is the roster of the channel. -/
theorem rosters_converge (cfg : NodeConfig) (actions : List Action)
    (h : Along (step cfg) Timely new actions) : Always (step cfg) Converged new actions := by
  have hboth : Always (step cfg) (fun w => w.Ok cfg ∧ w.Tracking) new actions :=
    Along.always (fun w action hw htimely => ⟨hw.1.step action,
      hw.2.moves hw.1 htimely (step_moves hw.1.inner action)⟩) ⟨ok_new, tracking_new⟩ h
  exact hboth.imp fun _ hw => hw.2.converged hw.1

/-! ## A run in time -/

/-- No subscriber waits for its snapshot, and no notice is queued of one. -/
def settled (w : World) (key : Key) : Bool :=
  (w.inner.subs key).all fun s =>
    !(w.sessions s.2).handler.awaits && decide (s.1 ∉ namesOf (w.inner.queued key))

/-- A test of `Timely`. -/
def inTime (w : World) : Action → Bool
  | .logOn .. => true
  | .start _ input => input.removes.isNone
  | .resume sid _ =>
    match (w.sessions sid).handler with
    | .arriving _ joined => w.settled joined.key &&
        (w.inner.subs joined.key).any fun s => s.1 = (w.sessions sid).displayName
    | .speaking key _ _ => w.settled key
    | _ => true
  | .flushPending _ => decide (∀ key ∈ w.inner.pendingLeaves.keys, w.settled key = true)

theorem settled_iff : w.settled key = true ↔ ∀ s ∈ w.inner.subs key,
    (w.sessions s.2).handler.awaits = false ∧ s.1 ∉ namesOf (w.inner.queued key) := by
  simp [settled]

theorem flushTimely_of_settled (h : w.settled key = true) : w.FlushTimely key := by
  rw [settled_iff] at h
  refine ⟨fun name hname a ha => absurd hname (h (name, a) ha).2, fun name _ s hs hshows => ?_⟩
  have hrests := (h s hs).1
  unfold Handler.showsOld at hshows
  split at hshows
  · rename_i hshowing
    rw [hshowing] at hrests
    cases hrests
  · exact hshows.elim

theorem arrivalTimely_of_settled (h : w.settled key = true)
    (hmember : ((w.inner.subs key).any fun s => s.1 = (w.sessions sid).displayName) = true) :
    w.ArrivalTimely key sid := by
  constructor
  · obtain ⟨s, hs, hname⟩ := List.any_eq_true.mp hmember
    exact Or.inl ⟨s.2, of_decide_eq_true hname ▸ hs⟩
  · rintro _ s hs _ ⟨asked, joined, existing, hshowing⟩
    have hrests := (settled_iff.mp h s hs).1
    rw [hshowing] at hrests
    cases hrests

theorem timely_of_inTime {action : Action} (h : w.inTime action = true) : w.Timely action := by
  cases action with
  | logOn => trivial
  | start sid input =>
    intro _ _ _ _ hremoves
    rw [inTime, hremoves] at h
    cases h
  | resume sid ignores =>
    unfold Timely
    unfold inTime at h
    dsimp only at h ⊢
    split
    · rename_i hbefore
      rw [hbefore] at h
      obtain ⟨hsettled, hmember⟩ := Bool.and_eq_true_iff.mp h
      exact ⟨flushTimely_of_settled hsettled, arrivalTimely_of_settled hsettled hmember⟩
    · rename_i hbefore
      rw [hbefore] at h
      exact flushTimely_of_settled h
    · trivial
  | flushPending walk =>
    intro key
    by_cases hkey : key ∈ w.inner.pendingLeaves
    · exact flushTimely_of_settled (of_decide_eq_true h key (Finmap.mem_keys.mpr hkey))
    · have hqueued : w.inner.queued key = [] := by
        rw [Inner.queued, Inner.room, Finmap.lookup_eq_none.mpr hkey]
        rfl
      constructor <;> rw [hqueued] <;> rintro _ ⟨⟩

/-- A member leaves, its leave notice is delivered, and it comes back. -/
def comesBackLater : List Action :=
  comesToDen 0 "alice" ++ comesToDen 1 "bob" ++
    [.start 1 .leaveChat, .resume 1 fun _ _ => false, .flushPending .ascendingBytes,
      .start 1 (.joinChannel den), .resume 1 fun _ _ => false, .resume 1 fun _ _ => false,
      .resume 1 fun _ _ => false]

theorem rosters_converge_den : Always (step openChannels) Converged new comesBackLater := by
  have hinTime : Along (step openChannels) (fun w action => w.inTime action = true) new
      comesBackLater := by decide +kernel
  exact rosters_converge openChannels _ (Along.imp (fun _ _ => timely_of_inTime) hinTime)

/-- A member leaves and comes back before its leave notice is delivered. -/
def comesBack : List Action :=
  comesToDen 0 "alice" ++ comesToDen 1 "bob" ++
    [.start 1 .leaveChat, .resume 1 fun _ _ => false, .start 1 (.joinChannel den),
      .resume 1 fun _ _ => false, .resume 1 fun _ _ => false, .resume 1 fun _ _ => false]

theorem quiet_comesBack : (run (step openChannels) new comesBack).Quiet := by
  refine ⟨fun a => ?_, fun key hkey => ?_⟩
  · have hlogs : comesBack.filterMap Action.logsOn = [0, 1] := rfl
    by_cases ha : a = 0 ∨ a = 1
    · rcases ha with rfl | rfl
      · exact Or.inr (Or.inl rfl)
      · exact Or.inr (Or.inl rfl)
    · refine Or.inl (offline_run ok_new rfl fun action haction he => ha ?_)
      have hmem : a ∈ comesBack.filterMap Action.logsOn :=
        List.mem_filterMap.mpr ⟨action, haction, he⟩
      rw [hlogs] at hmem
      simpa using hmem
  · have hempty : (run (step openChannels) new comesBack).inner.pendingLeaves = ∅ := by
      decide +kernel
    rw [hempty] at hkey
    exact Finmap.notMem_empty hkey

/-- It is then told of its own departure, after its snapshot. -/
theorem comesBack_not_converged : ¬ ∀ cfg actions, Always (step cfg) Converged new actions := by
  intro h
  have hmembers : ((run (step openChannels) new comesBack).inner.channels.lookup den).map
      Channel.memberNames = some ["alice".toList, "bob".toList] := by decide +kernel
  obtain ⟨c, hc, hnames⟩ := Option.map_eq_some_iff.mp hmembers
  have hshown : viewOf ((run (step openChannels) new comesBack).sessions 1).inbox =
      some (den, {"alice".toList}) := by decide +kernel
  have hname : ((run (step openChannels) new comesBack).sessions 1).displayName = "bob".toList := by
    decide +kernel
  have hview := (h openChannels comesBack).last quiet_comesBack den c 1 hc rfl
    (by rw [hname, hnames]; decide)
  rw [hshown, hnames] at hview
  have hset := (Prod.mk.inj (Option.some.inj hview)).2
  exact absurd hset (by decide)

end World

end CommandCenter.Daemon
