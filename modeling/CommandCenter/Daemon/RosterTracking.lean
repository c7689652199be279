import CommandCenter.Daemon.ChatSessions
import CommandCenter.Library.Notices

/-!
# What a client shows of its channel

A client's roster is the fold of the events it was sent. A session whose join snapshot is not queued
yet is going to have the roster of that snapshot, whatever it is sent before.

* `foldl_hear_leaves`: a batch of leave notices takes their names.
* `seen_of_showing`: the roster of a snapshot.
-/

namespace CommandCenter.Daemon

open Rust CommandCenter.Core Proto Library

/-- The channel that was named last, and the names shown in it. -/
abbrev RosterView := Option (List UInt8 × Finset Text)

/-- What an event does to the roster of a client. -/
def hear (view : RosterView) (event : ChatEvent) : RosterView :=
  match event.event with
  | .channel => some (event.text, ∅)
  | .showUser | .join => view.map fun v => (v.1, insert event.username v.2)
  | .leave => view.map fun v => (v.1, v.2.erase event.username)
  | _ => view

def viewOf (events : List ChatEvent) : RosterView := events.foldl hear none

theorem viewOf_append (events events' : List ChatEvent) :
    viewOf (events ++ events') = events'.foldl hear (viewOf events) := List.foldl_append

theorem hear_aside {event : ChatEvent} (h : aside event = true) (view : RosterView) :
    hear view event = view := by
  unfold aside at h
  unfold hear
  split <;> simp_all

theorem foldl_hear_asides {events : List ChatEvent} (h : ∀ event ∈ events, aside event = true)
    (view : RosterView) : events.foldl hear view = view := by
  induction events generalizing view with
  | nil => rfl
  | cons event events ih =>
    rw [List.foldl_cons, hear_aside (h event (by simp))]
    exact ih (fun e he => h e (by simp [he])) view

def namesOf (events : List ChatEvent) : Finset Text := (events.map ChatEvent.username).toFinset

theorem mem_namesOf {events : List ChatEvent} {name : Text} :
    name ∈ namesOf events ↔ ∃ event ∈ events, event.username = name := by
  rw [namesOf, List.mem_toFinset, List.mem_map]

theorem foldl_hear_leaves {events : List ChatEvent} (h : ∀ event ∈ events, event.event = .leave)
    (shown : List UInt8) (V : Finset Text) :
    events.foldl hear (some (shown, V)) = some (shown, V \ namesOf events) := by
  induction events generalizing V with
  | nil =>
    rw [List.foldl_nil, namesOf, List.map_nil, List.toFinset_nil, Finset.sdiff_empty]
  | cons event events ih =>
    have hear_leave : hear (some (shown, V)) event = some (shown, V.erase event.username) := by
      rw [hear, h event (by simp)]
      rfl
    rw [List.foldl_cons, hear_leave, ih fun e he => h e (by simp [he])]
    have hnames : V.erase event.username \ namesOf events = V \ namesOf (event :: events) := by
      ext name
      simp only [Finset.mem_sdiff, Finset.mem_erase, mem_namesOf, List.exists_mem_cons_iff, not_or]
      constructor
      · rintro ⟨⟨hne, hv⟩, hn⟩
        exact ⟨hv, Ne.symm hne, hn⟩
      · rintro ⟨hv, hne, hn⟩
        exact ⟨⟨Ne.symm hne, hv⟩, hn⟩
    rw [hnames]

/-- Users are shown one by one. -/
theorem foldl_hear_occupants (existing : List ChannelOccupant) (shown : List UInt8)
    (V : Finset Text) :
    (existing.map fun occ => (⟨.showUser, occ.flags, occ.name, occ.statstring⟩ : ChatEvent)).foldl
      hear (some (shown, V)) =
        some (shown, V ∪ (existing.map ChannelOccupant.name).toFinset) := by
  induction existing generalizing V with
  | nil => rw [List.map_nil, List.foldl_nil, List.map_nil, List.toFinset_nil, Finset.union_empty]
  | cons occ existing ih =>
    rw [List.map_cons, List.foldl_cons]
    show List.foldl hear (some (shown, insert occ.name V)) _ = _
    rw [ih, List.map_cons, List.toFinset_cons, Finset.insert_union, Finset.union_insert]

/-- The snapshot of a join is queued next. -/
def Handler.awaits : Handler → Bool
  | .showing _ _ _ => true
  | _ => false

namespace ChatSession

/-- What is to be queued before anything else can be. -/
def coming (s : ChatSession) : List ChatEvent :=
  match s.handler with
  | .showing _ joined existing => s.snapshot joined existing
  | _ => []

/-- The roster that the client is going to have of what is decided by now. -/
def seen (s : ChatSession) : RosterView := viewOf (s.inbox ++ s.coming)

theorem foldl_hear_snapshot (s : ChatSession) (joined : JoinedChannel)
    (existing : List ChannelOccupant) (view : RosterView) :
    (s.snapshot joined existing).foldl hear view = some (Text.asBytes joined.display,
      insert s.displayName (existing.map ChannelOccupant.name).toFinset) := by
  rw [snapshot, List.cons_append, List.foldl_cons, List.foldl_append]
  show List.foldl hear (List.foldl hear (some (Text.asBytes joined.display, ∅)) _) _ = _
  rw [foldl_hear_occupants, Finset.empty_union]
  rfl

theorem seen_of_showing {s : ChatSession} {asked : List UInt8} {joined : JoinedChannel}
    {existing : List ChannelOccupant} (h : s.handler = .showing asked joined existing) :
    s.seen = some (Text.asBytes joined.display,
      insert s.displayName (existing.map ChannelOccupant.name).toFinset) := by
  rw [seen, coming, h, viewOf_append, foldl_hear_snapshot]

/-- Whether the join snapshot is still to be queued. -/
def awaits (s : ChatSession) : Prop :=
  ∃ asked joined existing, s.handler = .showing asked joined existing

theorem coming_of_not_awaits {s : ChatSession} (h : ¬ s.awaits) : s.coming = [] := by
  unfold coming
  split
  · rename_i asked joined existing hshowing
    exact absurd ⟨asked, joined, existing, hshowing⟩ h
  · rfl

/-- A session that waits for its snapshot misses what it is sent. -/
theorem seen_receive_of_awaits {s : ChatSession} (h : s.awaits) (events : List ChatEvent) :
    (s.receive events).seen = s.seen := by
  obtain ⟨asked, joined, existing, hshowing⟩ := h
  rw [seen_of_showing (s := s.receive events) hshowing, seen_of_showing hshowing]
  rfl

/-- Any other session hears it. -/
theorem seen_receive_of_not_awaits {s : ChatSession} (h : ¬ s.awaits) (events : List ChatEvent) :
    (s.receive events).seen = events.foldl hear s.seen := by
  have hcoming : (s.receive events).coming = [] := coming_of_not_awaits (s := s.receive events) h
  rw [seen, seen, hcoming, coming_of_not_awaits h, List.append_nil, List.append_nil, receive,
    viewOf_append]

theorem seen_receive_asides (s : ChatSession) {events : List ChatEvent}
    (h : ∀ event ∈ events, aside event = true) : (s.receive events).seen = s.seen := by
  by_cases hs : s.awaits
  · exact seen_receive_of_awaits hs events
  · rw [seen_receive_of_not_awaits hs, foldl_hear_asides h]

end ChatSession

end CommandCenter.Daemon
