import CommandCenter.Daemon.Rooms

/-!
# Who is sent what

The fan-out lists of a node, the notices queued for each, and what the queue of one subscriber is
handed.

* `Departs`: what leaving and being removed do to the lists.
* `broadcast_sent`: a broadcast is a flush and then the event, for those it is for.
* `sentTo_flushLeaves`, `sentTo_filter`: what a subscriber is handed, given that each list names a
  queue once.
-/

namespace CommandCenter.Daemon

open Rust CommandCenter.Core Proto

variable {Out : Type}

/-- An abandoned channel leaves nobody behind. -/
theorem Room.subscribers_without {r : Room Out} {c : Channel} {subs : List (Text × Out)} {i : Nat}
    (hsubs : r.subscribers = some subs) (hnames : (subs.eraseIdx i).map Prod.fst = c.memberNames) :
    (r.without c i).subscribers.getD [] = subs.eraseIdx i := by
  unfold Room.without
  split
  · rename_i habandoned
    rw [Channel.abandoned, Bool.and_eq_true, Bool.and_eq_true] at habandoned
    rw [Channel.memberNames, List.isEmpty_iff.mp habandoned.1.1, List.map_nil] at hnames
    exact (List.map_eq_nil_iff.mp hnames).symm
  · rw [hsubs]
    rfl

namespace Inner

def subs (inner : Inner Out) (key : Key) : List (Text × Out) :=
  (inner.room key).subscribers.getD []

/-- The notices queued for a channel. -/
def queued (inner : Inner Out) (key : Key) : List ChatEvent := (inner.room key).pending.getD []

/-- The name under which a channel is shown. -/
def display (inner : Inner Out) (key : Key) : Option Text :=
  (inner.room key).channel.map Channel.display

variable {cfg : NodeConfig} {inner inner' : Inner Out} {key : Key} {name : Text}

/-- The fan-out list names the members, in their order. -/
theorem Ok.map_fst_subs (h : inner.Ok cfg) {c : Channel} (hc : inner.channels.lookup key = some c) :
    (inner.subs key).map Prod.fst = c.memberNames := by
  obtain ⟨subs, hsubs, hnames⟩ := (h key).subscribers hc
  rw [Inner.subs, hsubs]
  exact hnames

theorem Ok.exists_channel (h : inner.Ok cfg) (hsubs : inner.subs key ≠ []) :
    ∃ c, inner.channels.lookup key = some c := by
  have hsome : (inner.room key).subscribers.isSome = true := by
    cases hnone : (inner.room key).subscribers with
    | none =>
      rw [subs, hnone] at hsubs
      exact absurd rfl hsubs
    | some subs => rfl
  rw [(h key).isSome_iff] at hsome
  exact Option.isSome_iff_exists.mp hsome

/-- The names of a fan-out list differ, whatever their case. -/
theorem Ok.nodup_subs (h : inner.Ok cfg) (key : Key) :
    ((inner.subs key).map fun s => s.1.toAsciiLowercase).Nodup := by
  by_cases hsubs : inner.subs key = []
  · rw [hsubs]
    exact List.nodup_nil
  · obtain ⟨c, hc⟩ := h.exists_channel hsubs
    rw [map_lowercase_fst (h.map_fst_subs hc)]
    exact (h key).distinct c hc

theorem Ok.isMember_iff_subs (h : inner.Ok cfg) : inner.isMember key name = true ↔
    ∃ s ∈ inner.subs key, s.1.toAsciiLowercase = name.toAsciiLowercase := by
  rw [isMember_iff]
  constructor
  · rintro ⟨c, hc, hname⟩
    rw [← map_lowercase_fst (h.map_fst_subs hc)] at hname
    exact List.mem_map.mp hname
  · rintro ⟨s, hs, hname⟩
    obtain ⟨c, hc⟩ := h.exists_channel (List.ne_nil_of_mem hs)
    refine ⟨c, hc, ?_⟩
    rw [← map_lowercase_fst (h.map_fst_subs hc)]
    exact List.mem_map.mpr ⟨s, hs, hname⟩

/-! ## Nobody comes or goes -/

/-- The channels keep their names and their subscribers, and notices still wait. -/
structure Keeps (inner inner' : Inner Out) : Prop where
  display : ∀ key, inner'.display key = inner.display key
  subs : ∀ key, inner'.subs key = inner.subs key
  queued : ∀ key, inner'.queued key = inner.queued key

theorem Keeps.of_room (h : inner'.room = inner.room) : inner.Keeps inner' := by
  constructor <;> intro key
  · rw [Inner.display, h]
    rfl
  · rw [Inner.subs, h]
    rfl
  · rw [Inner.queued, h]
    rfl

theorem Keeps.refl (inner : Inner Out) : inner.Keeps inner := Keeps.of_room rfl

theorem Keeps.of_tends (h : inner.Tends key inner') : inner.Keeps inner' := by
  rcases h with rfl | ⟨c, c', hc, ⟨_, _, _, hdisplay⟩, hr⟩
  · exact Keeps.refl _
  · constructor <;> intro k <;> by_cases hk : k = key
    · subst hk
      rw [Inner.display, hr.here, Inner.display, hc]
      exact congrArg some hdisplay
    · rw [Inner.display, hr.elsewhere k hk]
      rfl
    · subst hk
      rw [Inner.subs, hr.here]
      rfl
    · rw [Inner.subs, hr.elsewhere k hk]
      rfl
    · subst hk
      rw [Inner.queued, hr.here]
      rfl
    · rw [Inner.queued, hr.elsewhere k hk]
      rfl

/-! ## Somebody goes -/

/-- The session shown as `name` is no longer in the channel, and nothing else is lost to those who
still are in one. -/
structure Departs (inner : Inner Out) (key : Key) (name : Text) (inner' : Inner Out) : Prop where
  subs : ∀ k s, s ∈ inner'.subs k ↔
    s ∈ inner.subs k ∧ ¬ (k = key ∧ s.1.toAsciiLowercase = name.toAsciiLowercase)
  queued : ∀ k, inner'.queued k = inner.queued k ∨ inner'.subs k = [] ∧ inner'.queued k = []
  display : ∀ k, inner'.subs k ≠ [] → inner'.display k = inner.display k

theorem Departs.subset_subs (h : inner.Departs key name inner') (k : Key) :
    inner'.subs k ⊆ inner.subs k := fun s hs => ((h.subs k s).mp hs).1

theorem Departs.subset_queued (h : inner.Departs key name inner') (k : Key) :
    inner'.queued k ⊆ inner.queued k := by
  rcases h.queued k with he | ⟨_, he⟩ <;> rw [he]
  · exact List.Subset.refl _
  · exact List.nil_subset _

theorem mem_eraseIdx_iff {subs : List (Text × Out)}
    (hnodup : (subs.map fun s => s.1.toAsciiLowercase).Nodup) {i : Nat}
    (hat : (subs.map fun s => s.1.toAsciiLowercase)[i]? = some name.toAsciiLowercase)
    (s : Text × Out) :
    s ∈ subs.eraseIdx i ↔ s ∈ subs ∧ s.1.toAsciiLowercase ≠ name.toAsciiLowercase := by
  rw [← filter_eq_eraseIdx (p := fun s => s.1.toAsciiLowercase ≠ name.toAsciiLowercase)
    (fun x => decide_eq_true_iff) hnodup hat, List.mem_filter, decide_eq_true_iff]

theorem Removed.departs (h : inner.Ok cfg) (hr : inner.Removed key name inner') :
    inner.Departs key name inner' := by
  obtain ⟨c, hc, idx, bans, hidx, hreplaces⟩ := hr
  obtain ⟨subs, hsubs, hnames⟩ := (h key).subscribers hc
  have hat := positionByName_spec hidx
  rw [← map_lowercase_fst hnames] at hat
  have hfound : inner.subs key = subs := by
    rw [Inner.subs, hsubs]
    rfl
  have hleft : inner'.subs key = subs.eraseIdx idx := by
    rw [Inner.subs, hreplaces.here]
    refine Room.subscribers_without hsubs ?_
    rw [Channel.memberNames_removeAt, ← List.eraseIdx_map, hnames]
    rfl
  refine ⟨fun k s => ?_, fun k => ?_, fun k hk => ?_⟩
  · by_cases hk : k = key
    · subst hk
      rw [hleft, hfound, mem_eraseIdx_iff (hfound ▸ h.nodup_subs k) hat]
      simp
    · rw [Inner.subs, hreplaces.elsewhere k hk, Inner.subs]
      simp [hk]
  · by_cases hk : k = key
    · subst hk
      rw [Inner.subs, Inner.queued, hreplaces.here, Room.without]
      split
      · exact Or.inr ⟨rfl, rfl⟩
      · exact Or.inl rfl
    · rw [Inner.queued, hreplaces.elsewhere k hk]
      exact Or.inl rfl
  · by_cases he : k = key
    · subst he
      rw [Inner.subs, hreplaces.here, Room.without] at hk
      rw [Inner.display, hreplaces.here, Room.without]
      split
      · rename_i habandoned
        rw [if_pos habandoned] at hk
        exact absurd rfl hk
      · obtain ⟨_, _, hdisplay⟩ := Channel.removeAt_settings { c with bans } idx
        rw [Inner.display, hc]
        exact congrArg some hdisplay
    · rw [Inner.display, hreplaces.elsewhere k he]
      rfl

/-- Leaving a channel that the session is not in changes nothing, which is what departing says. -/
theorem leaveChannel_departs (h : inner.Ok cfg) (key : Key) (name : Text) :
    inner.Departs key name (inner.leaveChannel key name).2 := by
  rcases leaveChannel_spec h key name with ⟨hmember, hroom⟩ | hremoved
  · have hkeeps := Keeps.of_room hroom
    refine ⟨fun k s => ?_, fun k => Or.inl (hkeeps.queued k), fun k _ => hkeeps.display k⟩
    rw [hkeeps.subs]
    refine ⟨fun hs => ⟨hs, ?_⟩, And.left⟩
    rintro ⟨rfl, hname⟩
    rw [Bool.eq_false_iff] at hmember
    exact hmember (h.isMember_iff_subs.mpr ⟨s, hs, hname⟩)
  · exact hremoved.departs h

/-! ## Somebody comes -/

/-- A subscriber is added to one channel, which may be new. -/
structure Arrives (inner : Inner Out) (key : Key) (s : Text × Out) (inner' : Inner Out) :
    Prop where
  subs : ∀ k, inner'.subs k = inner.subs k ++ if k = key then [s] else []
  queued : ∀ k, inner'.queued k = inner.queued k
  display : ∀ k, k ≠ key → inner'.display k = inner.display k

theorem Replaces.arrives {c : Channel} {s : Text × Out}
    (hr : inner.Replaces key
      ⟨some c, some ((inner.room key).subscribers.getD [] ++ [s]), (inner.room key).pending⟩
      inner') : inner.Arrives key s inner' := by
  refine ⟨fun k => ?_, fun k => ?_, fun k hk => ?_⟩
  · by_cases hk : k = key
    · subst hk
      rw [Inner.subs, hr.here, if_pos rfl]
      rfl
    · rw [Inner.subs, hr.elsewhere k hk, if_neg hk, List.append_nil]
      rfl
  · by_cases hk : k = key
    · subst hk
      rw [Inner.queued, hr.here]
      rfl
    · rw [Inner.queued, hr.elsewhere k hk]
      rfl
  · rw [Inner.display, hr.elsewhere k hk]
    rfl

/-! ## Notices -/

/-- Queuing a notice changes nothing else; where nobody is, it is dropped. -/
theorem enqueueLeave_keeps (inner : Inner Out) (key : Key) (frame : ChatEvent) :
    (inner.enqueueLeave key frame).display = inner.display ∧
      (inner.enqueueLeave key frame).subs = inner.subs := by
  rcases enqueueLeave_spec inner key frame with ⟨he, _⟩ | ⟨_, hr⟩
  · rw [he]
    exact ⟨rfl, rfl⟩
  · constructor <;> funext k <;> by_cases hk : k = key
    · subst hk
      rw [display, hr.here, display]
    · rw [display, hr.elsewhere k hk, display]
    · subst hk
      rw [subs, hr.here, subs]
    · rw [subs, hr.elsewhere k hk, subs]

theorem enqueueLeave_queued (inner : Inner Out) (key : Key) (frame : ChatEvent) (k : Key) :
    (inner.enqueueLeave key frame).queued k =
      inner.queued k ++ if k = key ∧ key ∈ inner.subscribers then [frame] else [] := by
  unfold enqueueLeave
  by_cases hsubs : key ∈ inner.subscribers
  · rw [if_pos hsubs]
    by_cases hk : k = key
    · subst hk
      rw [if_pos ⟨rfl, hsubs⟩, queued, room, queued, room]
      simp only [Finmap.lookup_insert, Option.getD_some]
    · rw [if_neg (fun h => hk h.1), List.append_nil, queued, room, queued, room]
      simp only [Finmap.lookup_insert_of_ne _ hk]
  · rw [if_neg hsubs, if_neg (fun h => hsubs h.2), List.append_nil]

theorem mem_subscribers_of_subs (hsubs : inner.subs key ≠ []) : key ∈ inner.subscribers := by
  rw [← Finmap.lookup_isSome]
  by_contra hnone
  rw [Bool.not_eq_true, Option.isSome_eq_false_iff, Option.isNone_iff_eq_none] at hnone
  rw [subs, room, hnone] at hsubs
  exact hsubs rfl

/-- A notice is queued where somebody is. -/
theorem mem_enqueueLeave (hsubs : inner.subs key ≠ []) (frame : ChatEvent) :
    frame ∈ (inner.enqueueLeave key frame).queued key := by
  rw [enqueueLeave_queued, if_pos ⟨rfl, mem_subscribers_of_subs hsubs⟩]
  exact List.mem_append_right _ (List.mem_singleton.mpr rfl)

theorem flushLeaves_keeps (inner : Inner Out) (key : Key) :
    (inner.flushLeaves key).2.display = inner.display ∧
      (inner.flushLeaves key).2.subs = inner.subs ∧
      ∀ k, (inner.flushLeaves key).2.queued k = if k = key then [] else inner.queued k := by
  have hr := flushLeaves_spec inner key
  refine ⟨?_, ?_, fun k => ?_⟩
  · funext k
    by_cases hk : k = key
    · subst hk
      rw [display, hr.here, display]
    · rw [display, hr.elsewhere k hk, display]
  · funext k
    by_cases hk : k = key
    · subst hk
      rw [subs, hr.here, subs]
    · rw [subs, hr.elsewhere k hk, subs]
  · by_cases hk : k = key
    · subst hk
      rw [queued, hr.here, if_pos rfl]
      rfl
    · rw [queued, hr.elsewhere k hk, if_neg hk, queued]

theorem broadcast_subs (receivers : Receivers Out) (inner : Inner Out) (key : Key)
    (wire : ChatEvent) (exclude senderBase : Option Text) :
    (inner.broadcast receivers key wire exclude senderBase).2.2.subs = inner.subs := by
  rw [broadcast_snd]
  exact (flushLeaves_keeps inner key).2.1

theorem flushAll_keeps (inner : Inner Out) (keys : List Key) :
    (inner.flushAll keys).2.display = inner.display ∧
      (inner.flushAll keys).2.subs = inner.subs ∧
      ∀ k, (inner.flushAll keys).2.queued k = if k ∈ keys then [] else inner.queued k := by
  induction keys generalizing inner with
  | nil => exact ⟨rfl, rfl, fun k => rfl⟩
  | cons key keys ih =>
    obtain ⟨hdisplay, hsubs, hqueued⟩ := ih (inner.flushLeaves key).2
    obtain ⟨hdisplay', hsubs', hqueued'⟩ := flushLeaves_keeps inner key
    refine ⟨hdisplay.trans hdisplay', hsubs.trans hsubs', fun k => ?_⟩
    show ((inner.flushLeaves key).2.flushAll keys).2.queued k = _
    rw [hqueued, hqueued']
    by_cases hkey : k = key
    · simp [hkey]
    · simp [hkey]

/-- Whom an event does not reach. -/
def Shut (receivers : Receivers Out) (exclude senderBase : Option Text) (s : Text × Out) : Bool :=
  exclude.any (s.1.eqIgnoreAsciiCase ·) ||
    senderBase.any fun base => receivers.ignores s.2 base.toAsciiLowercase

theorem broadcast_sent {receivers : Receivers Out} (hfull : ∀ out, receivers.full out = false)
    (inner : Inner Out) (key : Key) (wire : ChatEvent) (exclude senderBase : Option Text) :
    (inner.broadcast receivers key wire exclude senderBase).2.1 = (inner.flushLeaves key).1 ++
      ((inner.subs key).filter fun s => !Shut receivers exclude senderBase s).map
        fun s => (s.2, [wire]) := by
  have hsubs : (inner.flushLeaves key).2.subs key = inner.subs key :=
    congrFun (flushLeaves_keeps inner key).2.1 key
  unfold broadcast
  dsimp only
  split
  · rename_i hnone
    have hempty : inner.subs key = [] := by
      rw [← hsubs, subs, room, hnone]
      rfl
    rw [hempty, List.filter_nil, List.map_nil, List.append_nil]
  · rename_i subs hsome
    have hsame : inner.subs key = subs := by
      rw [← hsubs, Inner.subs, room, hsome]
      rfl
    have hall : ∀ l : List (Text × Out), (l.partition fun s => receivers.full s.2).2 = l := by
      intro l
      rw [List.partition_eq_filter_filter]
      exact List.filter_eq_self.mpr fun s _ => by simp [hfull]
    dsimp only
    rw [hall, hsame]
    simp only [Shut, Bool.not_or]

end Inner

/-! ## What one queue is handed -/

section Sent

variable [DecidableEq Out]

@[simp] theorem sentTo_nil (out : Out) : sentTo out [] = [] := rfl

theorem sentTo_append (out : Out) (sent sent' : List (Delivery Out)) :
    sentTo out (sent ++ sent') = sentTo out sent ++ sentTo out sent' := by
  rw [sentTo, List.filter_append, List.flatMap_append, sentTo, sentTo]

/-- The same events for everyone in a list that names a queue once. -/
theorem sentTo_map {subs : List (Text × Out)} (hnodup : (subs.map Prod.snd).Nodup)
    (events : List ChatEvent) (out : Out) :
    sentTo out (subs.map fun s => (s.2, events)) =
      if out ∈ subs.map Prod.snd then events else [] := by
  induction subs with
  | nil => rfl
  | cons s subs ih =>
    obtain ⟨hs, hrest⟩ := List.nodup_cons.mp hnodup
    rw [List.map_cons, ← List.singleton_append, sentTo_append, ih hrest]
    by_cases he : s.2 = out
    · subst he
      rw [if_neg hs, if_pos (by simp), sentTo]
      simp
    · have hmem : out ∈ (s :: subs).map Prod.snd ↔ out ∈ subs.map Prod.snd := by
        rw [List.map_cons, List.mem_cons, or_iff_right (Ne.symm he)]
      rw [if_congr hmem rfl rfl, sentTo]
      simp [he]

/-- Those of the list that an event is for are handed it, and others are not. -/
theorem sentTo_filter {subs : List (Text × Out)} (hnodup : (subs.map Prod.snd).Nodup)
    (p : Text × Out → Bool) (events : List ChatEvent) {s : Text × Out} (hs : s ∈ subs) :
    sentTo s.2 ((subs.filter p).map fun s => (s.2, events)) = if p s then events else [] := by
  have hfilter := List.filter_sublist (p := p) (l := subs)
  rw [sentTo_map (hnodup.sublist (hfilter.map _))]
  by_cases hp : p s = true
  · rw [if_pos hp, if_pos (List.mem_map_of_mem (List.mem_filter.mpr ⟨hs, hp⟩))]
  · rw [if_neg hp, if_neg]
    intro hmem
    obtain ⟨t, ht, hout⟩ := List.mem_map.mp hmem
    obtain ⟨hts, hpt⟩ := List.mem_filter.mp ht
    obtain rfl : t = s := List.inj_on_of_nodup_map hnodup hts hs hout
    exact hp hpt

theorem sentTo_filter_of_not_mem {subs : List (Text × Out)} (hnodup : (subs.map Prod.snd).Nodup)
    (p : Text × Out → Bool) (events : List ChatEvent) {out : Out}
    (hout : out ∉ subs.map Prod.snd) :
    sentTo out ((subs.filter p).map fun s => (s.2, events)) = [] := by
  have hfilter := List.filter_sublist (p := p) (l := subs)
  rw [sentTo_map (hnodup.sublist (hfilter.map _)),
    if_neg fun hmem => hout ((hfilter.map Prod.snd).subset hmem)]

namespace Inner

variable {inner : Inner Out} {key : Key}

theorem sentTo_flushLeaves (hnodup : ((inner.subs key).map Prod.snd).Nodup) (out : Out) :
    sentTo out (inner.flushLeaves key).1 =
      if out ∈ (inner.subs key).map Prod.snd then inner.queued key else [] := by
  rw [queued, room]
  dsimp only
  unfold flushLeaves
  split
  · rename_i hnone
    rw [hnone, Option.getD_none, ite_self]
    rfl
  · rename_i events hevents
    rw [hevents, Option.getD_some]
    dsimp only
    split
    · rename_i hempty
      rw [List.isEmpty_iff.mp hempty, ite_self]
      rfl
    · rw [subs, room] at hnodup ⊢
      dsimp only at hnodup ⊢
      split
      · rename_i hsubs
        rw [hsubs]
        rfl
      · rename_i subs hsubs
        rw [hsubs, Option.getD_some] at hnodup ⊢
        exact sentTo_map hnodup events out

end Inner

end Sent

end CommandCenter.Daemon
