import CommandCenter.Daemon.RosterTracking

/-!
# How far a client's roster is off

For each subscriber of a channel: its roster against the members, the names of which a leave notice
is still to come and those whose arrival is still to be announced (`Tracking`). One lemma for each
kind of move says what it takes to keep this.

* `Tracking.flushOne`, `Tracking.announce`: the two moves that can go wrong, and what keeps them
  from it (`FlushTimely`).
* `Tracking.goesOn`, `Tracking.departs`, `Tracking.joins`: the others.
-/

namespace CommandCenter.Daemon

open Rust CommandCenter.Core Proto Library

/-- The channel and the name of which the session is about to queue a leave notice. -/
def ChatSession.announces (s : ChatSession) : Option (Key × Text) :=
  match s.handler with
  | .noticeLeave key _ => some (key, s.displayName)
  | .noticeRemoval key target _ _ => some (key, target)
  | _ => none

/-- Whether the name is in the snapshot that is still to be queued. -/
def Handler.showsOld (handler : Handler) (name : Text) : Prop :=
  match handler with
  | .showing _ _ existing => name ∈ existing.map ChannelOccupant.name
  | _ => False

namespace World

variable {cfg : NodeConfig} {w w' : World} {key : Key} {sid : SessionId}

/-- The names of a channel's members. -/
def members (w : World) (key : Key) : Set Text := {name | ∃ sid, (name, sid) ∈ w.inner.subs key}

/-- The names of which a session is about to queue a notice. -/
def toQueue (w : World) (key : Key) : Set Text :=
  {name | ∃ sid, (w.sessions sid).announces = some (key, name)}

/-- The names of which a notice is still to come. -/
def leaving (w : World) (key : Key) : Set Text :=
  ↑(namesOf (w.inner.queued key)) ∪ w.toQueue key

/-- The names whose arrival is still to be announced. -/
def arriving (w : World) (key : Key) : Set Text :=
  {name | ∃ sid, (w.sessions sid).handler.enters = some key ∧
    (w.sessions sid).displayName = name}

/-- A subscriber's roster is off by what is under way. -/
def Tracked (w : World) (key : Key) (s : Text × SessionId) : Prop :=
  ∃ shown V, w.inner.display key = some shown ∧
    (w.sessions s.2).seen = some (Text.asBytes shown, V) ∧
    Tracks ↑V (w.members key) (w.leaving key) (w.arriving key \ {s.1})

def Tracking (w : World) : Prop := ∀ key, ∀ s ∈ w.inner.subs key, w.Tracked key s

/-- A flush of the channel comes in time: a member of whom a notice is queued waits for its
snapshot, and a snapshot that waits names nobody of whom the last notice is queued, but members. -/
structure FlushTimely (w : World) (key : Key) : Prop where
  member : ∀ name ∈ namesOf (w.inner.queued key), ∀ sid, (name, sid) ∈ w.inner.subs key →
    (w.sessions sid).awaits
  snapshot : ∀ name ∈ namesOf (w.inner.queued key), ∀ s ∈ w.inner.subs key,
    (w.sessions s.2).handler.showsOld name → name ∈ w.members key ∪ w.toQueue key

/-! ## Moves that reach nobody -/

theorem Tracked.mono {s : Text × SessionId} (h : w.Tracked key s)
    (hdisplay : w'.inner.display key = w.inner.display key)
    (hseen : (w'.sessions s.2).seen = (w.sessions s.2).seen)
    (hmembers : w'.members key = w.members key) (hleaving : w.leaving key ⊆ w'.leaving key)
    (harriving : w.arriving key \ {s.1} ⊆ w'.arriving key \ {s.1}) : w'.Tracked key s := by
  obtain ⟨shown, V, hshown, hview, htracks⟩ := h
  refine ⟨shown, V, hdisplay.trans hshown, hseen.trans hview, ?_⟩
  rw [hmembers]
  exact htracks.mono hleaving harriving

theorem members_congr (hsubs : w'.inner.subs key = w.inner.subs key) :
    w'.members key = w.members key := by
  rw [members, hsubs]
  rfl

theorem Tracking.goesOn (h : w.Tracking)
    (hdisplay : w'.inner.display = w.inner.display) (hsubs : w'.inner.subs = w.inner.subs)
    (hseen : ∀ key, ∀ s ∈ w.inner.subs key, (w'.sessions s.2).seen = (w.sessions s.2).seen)
    (hleaving : ∀ key, w.inner.subs key ≠ [] → w.leaving key ⊆ w'.leaving key)
    (harriving : ∀ key, w.arriving key ⊆ w'.arriving key) : w'.Tracking := by
  intro key s hs
  rw [hsubs] at hs
  exact (h key s hs).mono (congrFun hdisplay key) (hseen key s hs)
    (members_congr (congrFun hsubs key)) (hleaving key (List.ne_nil_of_mem hs))
    (Set.sdiff_subset_sdiff_left (harriving key))

/-- A name that is leaving still is, if the one session that moved has seen to its own. -/
theorem leaving_subset (sid : SessionId) (hothers : ∀ a, a ≠ sid →
      (w'.sessions a).announces = (w.sessions a).announces)
    (hqueued : w.inner.queued key ⊆ w'.inner.queued key)
    (hself : ∀ name, (w.sessions sid).announces = some (key, name) → name ∈ w'.leaving key) :
    w.leaving key ⊆ w'.leaving key := by
  rintro name (hname | ⟨a, ha⟩)
  · obtain ⟨event, hevent, hu⟩ := mem_namesOf.mp hname
    exact Or.inl (mem_namesOf.mpr ⟨event, hqueued hevent, hu⟩)
  · by_cases he : a = sid
    · subst he
      exact hself name ha
    · exact Or.inr ⟨a, (hothers a he).trans ha⟩

theorem arriving_subset (sid : SessionId) (hothers : ∀ a, a ≠ sid →
      (w'.sessions a).handler.enters = (w.sessions a).handler.enters ∧
      (w'.sessions a).displayName = (w.sessions a).displayName)
    (hself : (w.sessions sid).handler.enters = some key →
      (w.sessions sid).displayName ∈ w'.arriving key) : w.arriving key ⊆ w'.arriving key := by
  rintro name ⟨a, ha, rfl⟩
  by_cases he : a = sid
  · subst he
    exact hself ha
  · exact ⟨a, (hothers a he).1.trans ha, (hothers a he).2⟩

/-! ## Flushes -/

/-- The queued notices of one channel are handed to its subscribers. -/
def flushOne (w : World) (key : Key) : World :=
  { w with inner := (w.inner.flushLeaves key).2 }.deliver (w.inner.flushLeaves key).1

/-- A list names a session once. -/
theorem Ok.nodup_sids (h : w.Ok cfg) (key : Key) : ((w.inner.subs key).map Prod.snd).Nodup := by
  refine (h.inner.nodup_subs key).of_map.map_on fun s hs t ht he => ?_
  obtain ⟨_, hname, _⟩ := h.subscribed key s.1 s.2 hs
  obtain ⟨_, hname', _⟩ := h.subscribed key t.1 t.2 ht
  exact Prod.ext (by rw [← hname, ← hname', he]) he

/-- A session is on one list at most. -/
theorem Ok.not_elsewhere (h : w.Ok cfg) {key key' : Key} (hne : key' ≠ key)
    {s : Text × SessionId} (hs : s ∈ w.inner.subs key') :
    s.2 ∉ (w.inner.subs key).map Prod.snd := by
  intro hmem
  obtain ⟨t, ht, he⟩ := List.mem_map.mp hmem
  obtain ⟨_, _, hchannel⟩ := h.subscribed key' s.1 s.2 hs
  obtain ⟨_, _, hchannel'⟩ := h.subscribed key t.1 t.2 ht
  rw [he, hchannel] at hchannel'
  exact hne (Option.some.inj hchannel')

theorem flushOne_here (h : w.Ok cfg) {s : Text × SessionId} (hs : s ∈ w.inner.subs key) :
    (w.flushOne key).sessions s.2 = (w.sessions s.2).receive (w.inner.queued key) := by
  show (w.sessions s.2).receive (sentTo s.2 (w.inner.flushLeaves key).1) = _
  rw [Inner.sentTo_flushLeaves (h.nodup_sids key), if_pos (List.mem_map_of_mem hs)]

theorem flushOne_elsewhere (h : w.Ok cfg) {key' : Key} (hne : key' ≠ key)
    {s : Text × SessionId} (hs : s ∈ w.inner.subs key') :
    (w.flushOne key).sessions s.2 = w.sessions s.2 := by
  show (w.sessions s.2).receive (sentTo s.2 (w.inner.flushLeaves key).1) = _
  rw [Inner.sentTo_flushLeaves (h.nodup_sids key), if_neg (h.not_elsewhere hne hs),
    ChatSession.receive, List.append_nil]

theorem Ok.flushOne (h : w.Ok cfg) (key : Key) : (w.flushOne key).Ok cfg := by
  obtain ⟨_, hsubs, hqueued⟩ := Inner.flushLeaves_keeps w.inner key
  refine h.goesOn 0 (w.sessions 0).handler (h.inner.flushLeaves key) rfl hsubs
    (fun k event he => Or.inl ?_) (fun sid' _ => ⟨_, rfl⟩) ⟨_, rfl⟩ rfl (h.placed 0)
  have he' : event ∈ (w.inner.flushLeaves key).2.queued k := he
  rw [hqueued] at he'
  split at he'
  · cases he'
  · exact he'

theorem Ok.eq_of_name (h : w.Ok cfg) {key key' : Key} {name : Text} {a b : SessionId}
    (ha : (name, a) ∈ w.inner.subs key) (hb : (name, b) ∈ w.inner.subs key') : a = b := by
  obtain ⟨hnamed, hname, _⟩ := h.subscribed key name a ha
  obtain ⟨hnamed', hname', _⟩ := h.subscribed key' name b hb
  exact h.distinct a b hnamed hnamed' (by rw [hname, hname'])

/-- A subscriber that waits for its snapshot has entered the channel it is subscribed to. -/
theorem Ok.enters_of_awaits (h : w.Ok cfg) {s : Text × SessionId} (hs : s ∈ w.inner.subs key)
    (hawaits : (w.sessions s.2).awaits) : (w.sessions s.2).handler.enters = some key := by
  obtain ⟨asked, joined, existing, hshowing⟩ := hawaits
  obtain ⟨_, _, hchannel⟩ := h.subscribed key s.1 s.2 hs
  have hplaced := h.placed s.2
  rw [hshowing] at hplaced ⊢
  exact hplaced.symm.trans hchannel

theorem mem_of_showing {s : ChatSession} (hawaits : s.awaits) {shown : List UInt8}
    {V : Finset Text} (hview : s.seen = some (shown, V)) {name : Text} (hname : name ∈ V) :
    name = s.displayName ∨ s.handler.showsOld name := by
  obtain ⟨asked, joined, existing, hshowing⟩ := hawaits
  rw [ChatSession.seen_of_showing hshowing] at hview
  obtain ⟨_, rfl⟩ := Prod.mk.inj (Option.some.inj hview)
  rcases Finset.mem_insert.mp hname with hself | hexisting
  · exact Or.inl hself
  · refine Or.inr ?_
    rw [hshowing]
    exact List.mem_toFinset.mp hexisting

theorem mem_of_showsOld {s : ChatSession} {shown : List UInt8} {V : Finset Text}
    (hview : s.seen = some (shown, V)) {name : Text} (hold : s.handler.showsOld name) :
    name ∈ V := by
  unfold Handler.showsOld at hold
  split at hold
  · rename_i asked joined existing hshowing
    rw [ChatSession.seen_of_showing hshowing] at hview
    obtain ⟨_, rfl⟩ := Prod.mk.inj (Option.some.inj hview)
    exact Finset.mem_insert_of_mem (List.mem_toFinset.mpr hold)
  · cases hold

theorem Tracking.flushOne (h : w.Tracking) (hok : w.Ok cfg) (htimely : w.FlushTimely key) :
    (w.flushOne key).Tracking := by
  obtain ⟨hdisplay, hsubs, hqueued⟩ := Inner.flushLeaves_keeps w.inner key
  intro k s hs
  have hold : s ∈ w.inner.subs k := congrFun hsubs k ▸ hs
  have hmembers : (w.flushOne key).members k = w.members k := members_congr (congrFun hsubs k)
  by_cases hk : k = key
  · subst hk
    obtain ⟨shown, V, hshown, hview, htracks⟩ := h k s hold
    obtain ⟨_, hname, hchannel⟩ := hok.subscribed k s.1 s.2 hold
    have hleaving : w.leaving k \ ↑(namesOf (w.inner.queued k)) ⊆ (w.flushOne k).leaving k := by
      rintro name ⟨hq | hq, hn⟩
      · exact absurd hq hn
      · exact Or.inr hq
    have hshown' : (w.flushOne k).inner.display k = some shown :=
      (congrFun hdisplay k).trans hshown
    by_cases hawaits : (w.sessions s.2).awaits
    · refine ⟨shown, V, hshown', ?_, ?_⟩
      · rw [flushOne_here hok hold, ChatSession.seen_receive_of_awaits hawaits]
        exact hview
      · rw [hmembers]
        refine htracks.withhold (P := ↑(namesOf (w.inner.queued k))) ?_ hleaving
        rintro name ⟨hv, hq⟩
        rcases mem_of_showing hawaits hview hv with hself | hexisting
        · exact Or.inl ⟨s.2, by rw [hself, hname]; exact hold⟩
        · exact (htimely.snapshot name hq s hold hexisting).imp_right Or.inr
    · refine ⟨shown, V \ namesOf (w.inner.queued k), hshown', ?_, ?_⟩
      · rw [flushOne_here hok hold, ChatSession.seen_receive_of_not_awaits hawaits, hview,
          foldl_hear_leaves (hok.notices k)]
      · rw [hmembers, Finset.coe_sdiff]
        refine htracks.deliver ?_ hleaving
        rintro name ⟨hq, other, hmem⟩
        have hother := htimely.member name hq other hmem
        obtain ⟨_, hsame, _⟩ := hok.subscribed k name other hmem
        refine ⟨⟨other, hok.enters_of_awaits hmem hother, hsame⟩, ?_⟩
        rintro rfl
        exact hawaits (hok.eq_of_name hmem hold ▸ hother)
  · refine (h k s hold).mono (congrFun hdisplay k) ?_ hmembers ?_ (Set.Subset.refl _)
    · rw [flushOne_elsewhere hok hk hold]
    · rintro name (hq | hq)
      · refine Or.inl ?_
        show name ∈ (namesOf ((w.inner.flushLeaves key).2.queued k) : Set Text)
        rw [hqueued, if_neg hk]
        exact hq
      · exact Or.inr hq

/-! ## Arrivals -/

/-- An event for some of a channel's subscribers. -/
def telling (w : World) (key : Key) (p : Text × SessionId → Bool) (event : ChatEvent) :
    List (Delivery SessionId) :=
  ((w.inner.subs key).filter p).map fun s => (s.2, [event])

theorem sentTo_telling (hok : w.Ok cfg) (p : Text × SessionId → Bool) (event : ChatEvent)
    {s : Text × SessionId} (hs : s ∈ w.inner.subs key) :
    sentTo s.2 (w.telling key p event) = if p s then [event] else [] :=
  sentTo_filter (hok.nodup_sids key) p [event] hs

theorem sentTo_telling_elsewhere (hok : w.Ok cfg) (p : Text × SessionId → Bool)
    (event : ChatEvent) {key' : Key} (hne : key' ≠ key) {s : Text × SessionId}
    (hs : s ∈ w.inner.subs key') : sentTo s.2 (w.telling key p event) = [] :=
  sentTo_filter_of_not_mem (hok.nodup_sids key) p [event] (hok.not_elsewhere hne hs)

/-- Without a snapshot to wait for, what was sent decides what is shown. -/
theorem seen_congr {s s' : ChatSession} (h : ¬ s.awaits) (h' : ¬ s'.awaits)
    (hinbox : s'.inbox = s.inbox) : s'.seen = s.seen := by
  rw [ChatSession.seen, ChatSession.seen, ChatSession.coming_of_not_awaits h,
    ChatSession.coming_of_not_awaits h', hinbox]

theorem not_awaits {s : ChatSession} {handler : Handler} (h : s.handler = handler)
    (hrests : handler.awaits = false) : ¬ s.awaits := by
  rintro ⟨asked, joined, existing, hshowing⟩
  rw [← h, hshowing] at hrests
  cases hrests

/-- An arrival is told to all subscribers but the one who arrived, and that one goes on. -/
theorem Tracking.announce (h : w.Tracking) (hok : w.Ok cfg) {asked : List UInt8}
    {joined : JoinedChannel} (hbefore : (w.sessions sid).handler = .arriving asked joined)
    {p : Text × SessionId → Bool}
    (hp : ∀ s ∈ w.inner.subs joined.key, p s = true ↔ s.2 ≠ sid)
    (hknown : (w.sessions sid).displayName ∈ w.members joined.key ∪ w.leaving joined.key)
    (hmiss : (w.sessions sid).displayName ∈ w.members joined.key →
      ∀ s ∈ w.inner.subs joined.key, s.2 ≠ sid → (w.sessions s.2).awaits →
        (w.sessions s.2).handler.showsOld (w.sessions sid).displayName)
    {sent : List (Delivery SessionId)}
    (hsent : sent = w.telling joined.key p (w.sessions sid).joinEvent)
    {events : List ChatEvent} (hevents : ∀ event ∈ events, aside event = true) :
    ((w.deliver sent).setSession sid
      ({ (w.deliver sent).sessions sid with handler := .idle }.receive events)).Tracking := by
  set w' := (w.deliver sent).setSession sid
    ({ (w.deliver sent).sessions sid with handler := .idle }.receive events) with hw'
  have hself : w'.sessions sid =
      { (w.sessions sid).receive (sentTo sid sent) with handler := .idle }.receive events := by
    rw [hw', setSession_self]
    rfl
  have hother : ∀ a, a ≠ sid → w'.sessions a = (w.sessions a).receive (sentTo a sent) := by
    intro a ha
    rw [hw', setSession_of_ne _ ha]
    rfl
  have hleaving : ∀ k, w.leaving k ⊆ w'.leaving k := by
    refine fun k => leaving_subset sid (fun a ha => ?_) (List.Subset.refl _)
      fun name hname => ?_
    · rw [hother a ha]
      rfl
    · rw [ChatSession.announces, hbefore] at hname
      cases hname
  have harriving : ∀ k, w.arriving k \ {(w.sessions sid).displayName} ⊆ w'.arriving k := by
    rintro k name ⟨⟨a, henters, rfl⟩, hne⟩
    have ha : a ≠ sid := by
      rintro rfl
      exact hne rfl
    refine ⟨a, ?_, ?_⟩ <;> rw [hother a ha]
    · exact henters
    · rfl
  intro k s hs
  have hold : s ∈ w.inner.subs k := hs
  obtain ⟨_, hname, hchannel⟩ := hok.subscribed k s.1 s.2 hold
  by_cases hsid : s.2 = sid
  · -- the session that arrived hears nothing of it
    refine (h k s hold).mono rfl ?_ rfl (hleaving k) ?_
    · have hawaits : ¬ (w.sessions sid).awaits := not_awaits hbefore rfl
      have hk : k = joined.key := by
        have hplaced := hok.placed sid
        rw [hbefore] at hplaced
        rw [hsid] at hchannel
        exact Option.some.inj (hchannel.symm.trans hplaced)
      subst hk
      have hnothing : sentTo sid sent = [] := by
        rw [hsent, ← hsid, sentTo_telling hok p _ hold, if_neg fun he => (hp s hold).mp he hsid]
      rw [hsid, hself, ChatSession.seen_receive_asides _ hevents, hnothing]
      refine seen_congr hawaits (not_awaits rfl rfl) ?_
      rw [ChatSession.receive, List.append_nil]
    · rw [show s.1 = (w.sessions sid).displayName by rw [← hname, hsid]]
      exact fun name hmem => ⟨harriving k hmem, hmem.2⟩
  · by_cases hk : k = joined.key
    · subst hk
      obtain ⟨shown, V, hshown, hview, htracks⟩ := h _ s hold
      have hmissing : (w.arriving joined.key \ {s.1}) \ {(w.sessions sid).displayName} ⊆
          w'.arriving joined.key \ {s.1} :=
        fun name hmem => ⟨harriving _ ⟨hmem.1.1, hmem.2⟩, hmem.1.2⟩
      by_cases hawaits : (w.sessions s.2).awaits
      · refine ⟨shown, V, hshown, ?_, ?_⟩
        · rw [hother s.2 hsid, ChatSession.seen_receive_of_awaits hawaits]
          exact hview
        · have hmissed := htracks.miss
            (fun hmem => mem_of_showsOld hview (hmiss hmem s hold hsid hawaits)) hmissing
          exact hmissed.mono (hleaving _) (Set.Subset.refl _)
      · refine ⟨shown, insert (w.sessions sid).displayName V, hshown, ?_, ?_⟩
        · rw [hother s.2 hsid, ChatSession.seen_receive_of_not_awaits hawaits, hview, hsent,
            sentTo_telling hok p _ hold, if_pos ((hp s hold).mpr hsid)]
          rfl
        · rw [Finset.coe_insert]
          exact (htracks.announce hknown hmissing).mono (hleaving _) (Set.Subset.refl _)
    · refine (h k s hold).mono rfl ?_ rfl (hleaving k) ?_
      · rw [hother s.2 hsid, hsent, sentTo_telling_elsewhere hok p _ hk hold,
          ChatSession.receive, List.append_nil]
      · refine Set.sdiff_subset_sdiff_left (arriving_subset sid (fun a ha => ?_) ?_)
        · rw [hother a ha]
          exact ⟨rfl, rfl⟩
        · rw [hbefore]
          exact fun he => absurd (Option.some.inj he).symm hk

/-! ## Departures and joins -/

theorem Tracking.departs (h : w.Tracking) {name : Text}
    (hdeparts : w.inner.Departs key name w'.inner)
    (hseen : ∀ k, ∀ s ∈ w'.inner.subs k, (w'.sessions s.2).seen = (w.sessions s.2).seen)
    (hgone : ∀ other ∈ w.members key, other.toAsciiLowercase = name.toAsciiLowercase →
      other ∈ w'.leaving key)
    (hleaving : ∀ k, w'.inner.subs k ≠ [] → w.leaving k ⊆ w'.leaving k)
    (harriving : ∀ k, w.arriving k ⊆ w'.arriving k) : w'.Tracking := by
  intro k s hs
  obtain ⟨shown, V, hshown, hview, htracks⟩ := h k s ((hdeparts.subs k s).mp hs).1
  have hsubs : w'.inner.subs k ≠ [] := List.ne_nil_of_mem hs
  refine ⟨shown, V, (hdeparts.display k hsubs).trans hshown, (hseen k s hs).trans hview, ?_⟩
  refine (htracks.depart ?_ ?_ (hleaving k hsubs)).mono (Set.Subset.refl _)
    (Set.sdiff_subset_sdiff_left (harriving k))
  · rintro other ⟨a, ha⟩
    exact ⟨a, ((hdeparts.subs k _).mp ha).1⟩
  · rintro other ⟨a, ha⟩
    by_cases hout : k = key ∧ other.toAsciiLowercase = name.toAsciiLowercase
    · obtain ⟨rfl, he⟩ := hout
      exact Or.inr (hgone other ⟨a, ha⟩ he)
    · exact Or.inl ⟨a, (hdeparts.subs k _).mpr ⟨ha, hout⟩⟩

theorem Tracking.joins (h : w.Tracking) (hok : w.Ok cfg) {asked requested : List UInt8}
    {flags : UInt32} {c : Channel} {joiner : Joiner SessionId} {joined : JoinedChannel}
    {inner : Inner SessionId} (hbefore : (w.sessions sid).handler = .joining asked requested)
    (hname : joiner.displayName = (w.sessions sid).displayName) (hout : joiner.out = sid)
    (hc : c = (w.inner.channels.lookup (normalizeChannelName requested)).getD
      (newChannel cfg (normalizeChannelName requested) (Text.fromUtf8Lossy requested).trim))
    (hkey : joined.key = normalizeChannelName requested) (hdisplay : joined.display = c.display)
    (hroom : w.inner.Replaces (normalizeChannelName requested)
      ⟨some (c.enter joiner.account joiner.displayName joiner.baseFlags joiner.statstring),
        some (((w.inner.room (normalizeChannelName requested)).subscribers.getD []) ++
          [(joiner.displayName, joiner.out)]),
        (w.inner.room (normalizeChannelName requested)).pending⟩ inner) :
    ({ w with inner }.setSession sid
      { w.sessions sid with
        flags
        channel := some joined.key
        handler := .showing asked joined (occupants c) }).Tracking := by
  set s' : ChatSession := { w.sessions sid with
    flags, channel := some joined.key, handler := .showing asked joined (occupants c) } with hs'
  set w' : World := { w with inner }.setSession sid s' with hw'
  have harrives := hroom.arrives
  rw [hname, hout] at harrives
  have hself : w'.sessions sid = s' := setSession_self _ _ _
  have hother : ∀ a, a ≠ sid → w'.sessions a = w.sessions a := fun a ha => setSession_of_ne _ ha s'
  have hplaced := hok.placed sid
  rw [hbefore] at hplaced
  have hshown : w'.inner.display (normalizeChannelName requested) = some c.display := by
    show inner.display _ = _
    rw [Inner.display, hroom.here]
    rfl
  have hleaving : ∀ k, w.leaving k ⊆ w'.leaving k := by
    refine fun k => leaving_subset sid (fun a ha => ?_) ?_ fun name hname => ?_
    · rw [hother a ha]
    · show w.inner.queued k ⊆ inner.queued k
      rw [harrives.queued]
      exact List.Subset.refl _
    · rw [ChatSession.announces, hbefore] at hname
      cases hname
  have harriving : ∀ k, w.arriving k ⊆ w'.arriving k := by
    refine fun k => arriving_subset sid (fun a ha => ?_) fun henters => ?_
    · rw [hother a ha]
      exact ⟨rfl, rfl⟩
    · rw [hbefore] at henters
      cases henters
  have hnew : (w.sessions sid).displayName ∈ w'.arriving (normalizeChannelName requested) :=
    ⟨sid, by rw [hself, ← hkey]; rfl, by rw [hself]⟩
  have hentered : w'.members (normalizeChannelName requested) =
      insert (w.sessions sid).displayName (w.members (normalizeChannelName requested)) := by
    have hsubs : w'.inner.subs (normalizeChannelName requested) =
        w.inner.subs (normalizeChannelName requested) ++ [((w.sessions sid).displayName, sid)] :=
      (harrives.subs _).trans (by rw [if_pos rfl])
    ext name
    constructor
    · rintro ⟨a, ha⟩
      rw [hsubs, List.mem_append, List.mem_singleton] at ha
      rcases ha with ha | ha
      · exact Or.inr ⟨a, ha⟩
      · exact Or.inl (Prod.mk.inj ha).1
    · rintro (rfl | ⟨a, ha⟩)
      · exact ⟨sid, hsubs ▸ List.mem_append_right _ (List.mem_singleton.mpr rfl)⟩
      · exact ⟨a, hsubs ▸ List.mem_append_left _ ha⟩
  intro k s hs
  have hmem : s ∈ inner.subs k := hs
  rw [harrives.subs, List.mem_append] at hmem
  rcases hmem with hold | hmem
  · -- those who were there
    obtain ⟨hnamed, hsame, hchannel⟩ := hok.subscribed k s.1 s.2 hold
    have hsid : s.2 ≠ sid := by
      rintro rfl
      rw [show (w.sessions s.2).channel = none from hplaced] at hchannel
      cases hchannel
    obtain ⟨shown, V, hshown', hview, htracks⟩ := h k s hold
    by_cases hk : k = normalizeChannelName requested
    · subst hk
      have hfound : c.display = shown := by
        obtain ⟨found, hlookup⟩ := hok.inner.exists_channel (List.ne_nil_of_mem hold)
        rw [hc, hlookup, Option.getD_some]
        rw [Inner.display, Inner.room, hlookup] at hshown'
        exact Option.some.inj hshown'
      refine ⟨shown, V, hfound ▸ hshown, ?_, ?_⟩
      · rw [hother s.2 hsid]
        exact hview
      · rw [hentered]
        have hnewcomer : (w.sessions sid).displayName ∉ ({s.1} : Set Text) := by
          intro he
          refine hsid (hok.distinct s.2 sid hnamed (by rw [ChatSession.named, hbefore]) ?_)
          rw [hsame, ← Set.mem_singleton_iff.mp he]
        have hentering := htracks.enter (Set.mem_sdiff_of_mem hnew hnewcomer)
          (Set.sdiff_subset_sdiff_left (harriving _))
        exact hentering.mono (hleaving _) (Set.Subset.refl _)
    · refine (h k s hold).mono (harrives.display k hk) (by rw [hother s.2 hsid]) ?_ (hleaving k)
        (Set.sdiff_subset_sdiff_left (harriving k))
      refine members_congr ?_
      show inner.subs k = _
      rw [harrives.subs, if_neg hk, List.append_nil]
  · -- the one who enters
    split at hmem
    · rename_i hk
      obtain rfl := List.mem_singleton.mp hmem
      subst hk
      refine ⟨c.display, insert (w.sessions sid).displayName
        ((occupants c).map ChannelOccupant.name).toFinset, hshown, ?_, ?_⟩
      · rw [hself, ChatSession.seen_of_showing (s := s') rfl, hdisplay]
      · have hnames : ((occupants c).map ChannelOccupant.name).toFinset =
            ((w.inner.subs (normalizeChannelName requested)).map Prod.fst).toFinset := by
          rw [Inner.subs, (hok.inner.found _ _ hc).1, occupants, List.map_map]
          rfl
        have hview : (↑(insert (w.sessions sid).displayName
            ((occupants c).map ChannelOccupant.name).toFinset) : Set Text) =
              w'.members (normalizeChannelName requested) := by
          rw [hentered, Finset.coe_insert, hnames]
          ext name
          simp [members]
        rw [hview]
        exact Tracks.fresh _ _ _
    · cases hmem

end World

end CommandCenter.Daemon
