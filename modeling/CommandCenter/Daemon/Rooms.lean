import CommandCenter.Core.ChannelInvariant
import CommandCenter.Daemon.Node

/-!
# One channel of a node

What a node keeps for one key is a `Room`. Every method but the flush of all channels changes
one room and leaves the others alone (`Replaces`), and its lemma here says what that room becomes.

* `Room.Ok`: the roster and the fan-out list agree, and the channel has a reason to live.
* `joinChannel_spec`, `leaveChannel_spec`, `channelKick_spec`, `channelBan_spec`: somebody enters,
  or the session at one position is removed, or nothing changes.
* `Inner.Ok.replaces`: what a method has to show of its room.
-/

namespace CommandCenter.Daemon

open Rust CommandCenter.Core Proto

variable {Out : Type}

/-! ## Positions -/

theorem filter_eq_eraseIdx {α β : Type*} {f : α → β} {a : β} {p : α → Bool}
    (hp : ∀ x, p x = true ↔ f x ≠ a) {l : List α} (h : (l.map f).Nodup) {i : Nat}
    (ha : (l.map f)[i]? = some a) : l.filter p = l.eraseIdx i := by
  induction l generalizing i with
  | nil => rfl
  | cons x l ih =>
    obtain ⟨hx, hl⟩ := List.nodup_cons.mp h
    cases i with
    | zero =>
      obtain rfl : f x = a := Option.some.inj ha
      rw [List.filter_cons_of_neg (by simp [hp]), List.eraseIdx_zero, List.tail_cons]
      refine List.filter_eq_self.mpr fun y hy => (hp y).mpr ?_
      exact fun he => hx (he ▸ List.mem_map_of_mem hy)
    | succ i =>
      have ha' : (l.map f)[i]? = some a := ha
      have hne : f x ≠ a := fun he => hx (he ▸ List.mem_of_getElem? ha')
      rw [List.filter_cons_of_pos ((hp x).mpr hne), List.eraseIdx_cons_succ, ih hl ha']

theorem findFinIdx?_val {α β : Type*} {f : α → β} (p : β → Bool) (l : List α) :
    (l.findFinIdx? fun x => p (f x)).map Fin.val = (l.map f).findIdx? p := by
  rw [List.findIdx?_map, ← List.findIdx?_eq_map_findFinIdx?_val]
  rfl

/-! ## Rooms -/

/-- What a node keeps for one key. -/
structure Room (Out : Type) where
  channel : Option Channel
  subscribers : Option (List (Text × Out))
  pending : Option (List ChatEvent)

namespace Room

def empty : Room Out := ⟨none, none, none⟩

/-- The room after the session at one position was removed and left the channel as it is. -/
def without (r : Room Out) (c : Channel) (i : Nat) : Room Out :=
  if c.abandoned then empty else ⟨some c, r.subscribers.map (·.eraseIdx i), r.pending⟩

/-- The roster and the fan-out list agree; leave notices wait for somebody; and a channel
without members persists. -/
structure Ok (cfg : NodeConfig) (key : Key) (r : Room Out) : Prop where
  same : r.subscribers.map (List.map Prod.fst) = r.channel.map Channel.memberNames
  notices : r.pending.isSome → r.subscribers.isSome
  distinct : ∀ c ∈ r.channel, c.names.Nodup
  persist : ∀ c ∈ r.channel, c.persist = true →
    ∃ rule, cfg.channelRules.get key = some rule ∧ rule.persist = true
  alive : ∀ c ∈ r.channel, c.abandoned = false

variable {cfg : NodeConfig} {key : Key} {r : Room Out}

theorem Ok.empty : (Room.empty : Room Out).Ok cfg key := by
  refine ⟨rfl, id, ?_, ?_, ?_⟩ <;> simp [Room.empty]

/-- The fan-out list of a live channel. -/
theorem Ok.subscribers {c : Channel} (h : r.Ok cfg key) (hc : r.channel = some c) :
    ∃ subs, r.subscribers = some subs ∧ subs.map Prod.fst = c.memberNames := by
  have hsame := h.same
  rw [hc] at hsame
  exact Option.map_eq_some_iff.mp hsame

theorem Ok.isSome_iff (h : r.Ok cfg key) : r.subscribers.isSome = r.channel.isSome := by
  rw [← Option.isSome_map (f := List.map Prod.fst), h.same, Option.isSome_map]

theorem Ok.withChannel {c c' : Channel} (h : r.Ok cfg key) (hc : r.channel = some c)
    (hmembers : c'.members = c.members) (hclass : c'.channelClass = c.channelClass)
    (hpersist : c'.persist = c.persist) : Ok cfg key { r with channel := some c' } := by
  have hnames : c'.memberNames = c.memberNames := by rw [Channel.memberNames, hmembers]; rfl
  refine ⟨?_, h.notices, ?_, ?_, ?_⟩
  · rw [h.same, hc]
    exact congrArg some hnames.symm
  · rintro _ ⟨⟩
    rw [Channel.names_eq, hnames, ← Channel.names_eq]
    exact h.distinct c hc
  · rintro _ ⟨⟩
    rw [hpersist]
    exact h.persist c hc
  · rintro _ ⟨⟩
    have halive := h.alive c hc
    unfold Channel.abandoned at halive ⊢
    rw [hmembers, hclass, hpersist]
    exact halive

/-- A removal erases the same position from the roster and from the fan-out list. -/
theorem Ok.without {c : Channel} (h : r.Ok cfg key) (hc : r.channel = some c)
    (idx : Fin c.members.length) (bans : Finset AccountId) :
    (r.without (Channel.removeAt { c with bans } idx).2 idx).Ok cfg key := by
  unfold Room.without
  split
  · exact Ok.empty
  · rename_i halive
    obtain ⟨subs, hsubs, hnames⟩ := h.subscribers hc
    obtain ⟨_, hpersist, _⟩ := Channel.removeAt_settings { c with bans } idx
    refine ⟨?_, ?_, ?_, ?_, ?_⟩
    · rw [hsubs]
      simp only [Option.map_some, Channel.memberNames_removeAt]
      rw [← List.eraseIdx_map, hnames]
      rfl
    · intro _
      rw [hsubs]
      rfl
    · rintro _ ⟨⟩
      rw [Channel.removeAt_names]
      exact (h.distinct c hc).eraseIdx _
    · rintro _ ⟨⟩
      rw [hpersist]
      exact h.persist c hc
    · rintro _ ⟨⟩
      exact Bool.eq_false_iff.mpr halive

end Room

namespace Inner

def room (inner : Inner Out) (key : Key) : Room Out :=
  ⟨inner.channels.lookup key, inner.subscribers.lookup key, inner.pendingLeaves.lookup key⟩

/-- One room is replaced, and the others stay. -/
structure Replaces (inner : Inner Out) (key : Key) (r : Room Out) (inner' : Inner Out) :
    Prop where
  here : inner'.room key = r
  elsewhere : ∀ k, k ≠ key → inner'.room k = inner.room k

def Ok (cfg : NodeConfig) (inner : Inner Out) : Prop := ∀ key, (inner.room key).Ok cfg key

variable {cfg : NodeConfig} {inner inner' : Inner Out} {key : Key} {r : Room Out}

theorem Ok.replaces (h : inner.Ok cfg) (hr : inner.Replaces key r inner') (hok : r.Ok cfg key) :
    inner'.Ok cfg := by
  intro k
  by_cases hk : k = key
  · rw [hk, hr.here]
    exact hok
  · rw [hr.elsewhere k hk]
    exact h k

theorem ok_empty : (Inner.empty : Inner Out).Ok cfg := fun _ => Room.Ok.empty

theorem Replaces.refl (inner : Inner Out) (key : Key) :
    inner.Replaces key (inner.room key) inner := ⟨rfl, fun _ _ => rfl⟩

theorem Replaces.same (h : inner.Replaces key r inner') (hr : r = inner.room key) :
    inner'.room = inner.room := by
  funext k
  by_cases hk : k = key
  · rw [hk, h.here, hr]
  · exact h.elsewhere k hk

theorem Replaces.setChannel (h : inner.Replaces key r inner') (c : Channel) :
    inner.Replaces key { r with channel := some c } (inner'.setChannel key c) := by
  refine ⟨?_, fun k hk => ?_⟩
  · simp only [room, Inner.setChannel, Finmap.lookup_insert, ← h.here]
  · rw [← h.elsewhere k hk]
    simp only [room, Inner.setChannel, Finmap.lookup_insert_of_ne _ hk]

theorem Replaces.setSubscribers (h : inner.Replaces key r inner') (subs : List (Text × Out)) :
    inner.Replaces key { r with subscribers := some subs } (inner'.setSubscribers key subs) := by
  refine ⟨?_, fun k hk => ?_⟩
  · simp only [room, Inner.setSubscribers, Finmap.lookup_insert, ← h.here]
  · rw [← h.elsewhere k hk]
    simp only [room, Inner.setSubscribers, Finmap.lookup_insert_of_ne _ hk]

theorem Replaces.destroy (h : inner.Replaces key r inner') :
    inner.Replaces key Room.empty (inner'.destroy key) := by
  refine ⟨?_, fun k hk => ?_⟩
  · simp only [room, Inner.destroy, Finmap.lookup_erase, Room.empty]
  · rw [← h.elsewhere k hk]
    simp only [room, Inner.destroy, Finmap.lookup_erase_ne hk]

/-! ## Entering -/

theorem members_newChannel (cfg : NodeConfig) (key : Key) (display : Text) :
    (newChannel cfg key display).members = [] := by
  unfold newChannel
  dsimp only
  split <;> rfl

theorem joinDenial_newChannel (cfg : NodeConfig) (key : Key) (display : Text)
    (account : AccountId) (name : Text) :
    (newChannel cfg key display).joinDenial account name = none := by
  have hbans : (newChannel cfg key display).bans = ∅ := by
    unfold newChannel
    dsimp only
    split <;> rfl
  have hmembers := members_newChannel cfg key display
  have hname : ((newChannel cfg key display).positionByName name).isSome = false := by
    rw [Channel.positionByName_isSome, Channel.names, hmembers]
    rfl
  rw [Channel.joinDenial, hbans, hname, hmembers]
  simp

/-- What a call of `joinChannel` does. -/
inductive Joins (cfg : NodeConfig) (inner : Inner Out) (rawName : List UInt8)
    (joiner : Joiner Out) :
    Except JoinDenial (JoinedChannel × List ChannelOccupant) → Inner Out → Prop
  | denied (denial : JoinDenial) (inner' : Inner Out) (hroom : inner'.room = inner.room)
      (hpresent : denial = .alreadyPresent →
        inner.isMember (normalizeChannelName rawName) joiner.displayName = true) :
      Joins cfg inner rawName joiner (.error denial) inner'
  | entered (c : Channel) (joined : JoinedChannel) (inner' : Inner Out)
      (hc : c = (inner.channels.lookup (normalizeChannelName rawName)).getD
        (newChannel cfg (normalizeChannelName rawName) (Text.fromUtf8Lossy rawName).trim))
      (habsent : joiner.displayName.toAsciiLowercase ∉ c.names)
      (hkey : joined.key = normalizeChannelName rawName) (hdisplay : joined.display = c.display)
      (hroom : inner.Replaces (normalizeChannelName rawName)
        ⟨some (c.enter joiner.account joiner.displayName joiner.baseFlags joiner.statstring),
          some (((inner.room (normalizeChannelName rawName)).subscribers.getD []) ++
            [(joiner.displayName, joiner.out)]),
          (inner.room (normalizeChannelName rawName)).pending⟩ inner') :
      Joins cfg inner rawName joiner (.ok (joined, occupants c)) inner'

theorem isMember_iff {inner : Inner Out} {key : Key} {name : Text} :
    inner.isMember key name = true ↔
      ∃ c, (inner.room key).channel = some c ∧ name.toAsciiLowercase ∈ c.names := by
  simp only [isMember, room, Option.any_eq_true, List.any_eq_true, Channel.mem_names,
    Text.eqIgnoreAsciiCase_iff]

theorem joinDenial_alreadyPresent {c : Channel} {account : AccountId} {name : Text}
    (h : c.joinDenial account name = some .alreadyPresent) : name.toAsciiLowercase ∈ c.names := by
  unfold Channel.joinDenial at h
  split at h
  · cases h
  · split at h
    · rename_i hname
      rw [Channel.positionByName_isSome] at hname
      exact of_decide_eq_true hname
    · split at h
      · cases h
      · cases h

theorem joinDenial_none {c : Channel} {account : AccountId} {name : Text}
    (h : c.joinDenial account name = none) : name.toAsciiLowercase ∉ c.names := by
  unfold Channel.joinDenial at h
  split at h
  · cases h
  · split at h
    · cases h
    · rename_i hname
      rw [Channel.positionByName_isSome] at hname
      exact fun hmem => hname (decide_eq_true hmem)

theorem joinChannel_spec (cfg : NodeConfig) (inner : Inner Out) (rawName : List UInt8)
    (joiner : Joiner Out) : Joins cfg inner rawName joiner
      (inner.joinChannel cfg rawName joiner).1 (inner.joinChannel cfg rawName joiner).2 := by
  unfold joinChannel
  dsimp only
  split
  · exact .denied .full inner rfl (by simp)
  · split
    · exact .denied .restricted inner rfl (by simp)
    · generalize hc : (inner.channels.lookup (normalizeChannelName rawName)).getD
        (newChannel cfg (normalizeChannelName rawName) (Text.fromUtf8Lossy rawName).trim) = c
      cases hjoin : c.joinDenial joiner.account joiner.displayName with
      | some denial =>
        have hlookup : inner.channels.lookup (normalizeChannelName rawName) = some c := by
          cases hl : inner.channels.lookup (normalizeChannelName rawName) with
          | some c' =>
            rw [hl] at hc
            exact congrArg some hc
          | none =>
            rw [hl] at hc
            rw [← hc, Option.getD_none, joinDenial_newChannel] at hjoin
            cases hjoin
        simp only [Channel.join, hjoin]
        refine .denied denial _ ?_ ?_
        · refine ((Replaces.refl inner (normalizeChannelName rawName)).setChannel c).same ?_
          rw [← hlookup]
          rfl
        · rintro rfl
          exact isMember_iff.mpr ⟨c, hlookup, joinDenial_alreadyPresent hjoin⟩
      | none =>
        simp only [Channel.join, hjoin]
        refine .entered c _ _ hc.symm (joinDenial_none hjoin) rfl rfl ?_
        exact ((Replaces.refl inner _).setChannel _).setSubscribers _

/-! ## Leaving and being removed -/

/-- The session shown as `name` is removed from a channel, perhaps with a ban. -/
def Removed (inner : Inner Out) (key : Key) (name : Text) (inner' : Inner Out) : Prop :=
  ∃ c, (inner.room key).channel = some c ∧ ∃ idx bans, c.positionByName name = some idx ∧
    inner.Replaces key ((inner.room key).without (Channel.removeAt { c with bans } idx).2 idx)
      inner'

theorem Ok.removed {name : Text} (h : inner.Ok cfg) (hr : inner.Removed key name inner') :
    inner'.Ok cfg := by
  obtain ⟨c, hc, idx, bans, _, hreplaces⟩ := hr
  exact h.replaces hreplaces ((h key).without hc idx bans)

theorem positionByName_spec {c : Channel} {name : Text} {idx : Fin c.members.length}
    (h : c.positionByName name = some idx) :
    c.names[idx.val]? = some name.toAsciiLowercase := by
  have hname := (List.findFinIdx?_eq_some_iff.mp h).1
  rw [Channel.names, List.getElem?_map, List.getElem?_eq_getElem idx.isLt]
  exact congrArg some (Text.eqIgnoreAsciiCase_iff.mp hname)

theorem findSubscriber {c : Channel} {subs : List (Text × Out)}
    (h : subs.map Prod.fst = c.memberNames) (name : Text) :
    (subs.findFinIdx? fun s => s.1.eqIgnoreAsciiCase name).map Fin.val =
      (c.positionByName name).map Fin.val := by
  rw [findFinIdx?_val (f := Prod.fst) (fun t => Text.eqIgnoreAsciiCase t name), h,
    Channel.memberNames, ← findFinIdx?_val (f := Member.name)]
  rfl

/-- A live channel without the session at one position, and its fan-out list likewise. -/
theorem Replaces.without {c' : Channel} {subs : List (Text × Out)} {i : Nat}
    (hsubs : (inner.room key).subscribers = some subs) {out : Bool} (hout : out = c'.abandoned)
    (h : inner.Replaces key ⟨some c', some (subs.eraseIdx i), (inner.room key).pending⟩ inner') :
    inner.Replaces key ((inner.room key).without c' i)
      (if out = true then inner'.destroy key else inner') := by
  unfold Room.without
  rw [hout, hsubs]
  split
  · exact h.destroy
  · exact h

/-- The names of the fan-out list, folded as the roster's are. -/
theorem map_lowercase_fst {c : Channel} {subs : List (Text × Out)}
    (h : subs.map Prod.fst = c.memberNames) :
    subs.map (fun s => s.1.toAsciiLowercase) = c.names := by
  rw [Channel.names_eq, ← h, List.map_map]
  rfl

theorem leaveChannel_spec (h : inner.Ok cfg) (key : Key) (name : Text) :
    (inner.isMember key name = false ∧ (inner.leaveChannel key name).2.room = inner.room) ∨
      inner.Removed key name (inner.leaveChannel key name).2 := by
  unfold leaveChannel
  cases hc : inner.channels.lookup key with
  | none =>
    refine Or.inl ⟨?_, rfl⟩
    rw [isMember, hc]
    rfl
  | some c =>
    have hroom : (inner.room key).channel = some c := hc
    obtain ⟨subs, hsubs, hnames⟩ := (h key).subscribers hroom
    have hlookup : inner.subscribers.lookup key = some subs := hsubs
    have hfold := map_lowercase_fst hnames
    have hkept : ∀ s : Text × Out, (!s.1.eqIgnoreAsciiCase name) = true ↔
        s.1.toAsciiLowercase ≠ name.toAsciiLowercase := by
      intro s
      simp [Text.eqIgnoreAsciiCase]
    cases hidx : c.positionByName name with
    | none =>
      have habsent : name.toAsciiLowercase ∉ c.names := by
        have hsome := c.positionByName_isSome name
        rw [hidx] at hsome
        exact of_decide_eq_false hsome.symm
      have hfilter : subs.filter (fun s => !s.1.eqIgnoreAsciiCase name) = subs := by
        refine List.filter_eq_self.mpr fun s hs => (hkept s).mpr fun he => ?_
        rw [← he, ← hfold] at habsent
        exact habsent (List.mem_map_of_mem hs)
      refine Or.inl ⟨?_, ?_⟩
      · rw [Bool.eq_false_iff, ne_eq, isMember_iff]
        rintro ⟨c', hc', hmem⟩
        rw [hroom] at hc'
        cases hc'
        exact habsent hmem
      · simp only [Channel.leave, hidx, setChannel, hlookup, hfilter]
        refine (((Replaces.refl inner key).setChannel c).setSubscribers subs).same ?_
        rw [← hroom, ← hsubs]
    | some idx =>
      have herase : subs.filter (fun s => !s.1.eqIgnoreAsciiCase name) = subs.eraseIdx idx := by
        have hnodup := (h key).distinct c hroom
        have hat := positionByName_spec hidx
        rw [← hfold] at hnodup hat
        exact filter_eq_eraseIdx hkept hnodup hat
      refine Or.inr ⟨c, hroom, idx, c.bans, hidx, ?_⟩
      have hr := ((Replaces.refl inner key).setChannel (c.removeAt idx).2).setSubscribers
        (subs.eraseIdx idx)
      simp only [Channel.leave, hidx, setChannel, hlookup, herase]
      exact hr.without hsubs (c.removeAt_shouldDestroy idx)

/-- An action that removes the session shown as `name`, or is refused. -/
def Removing (name : Text) (action : Channel → Except OpError LeaveOutcome × Channel) : Prop :=
  ∀ c, (∃ e, (action c).1 = .error e) ∨ ∃ idx bans, c.positionByName name = some idx ∧
    action c = (.ok (Channel.removeAt { c with bans } idx).1,
      (Channel.removeAt { c with bans } idx).2)

theorem removing_kickByName (actor : AccountId) (name : Text) :
    Removing name fun c => c.kickByName actor name := by
  intro c
  unfold Channel.kickByName
  dsimp only
  split
  · exact Or.inl ⟨_, rfl⟩
  · split
    · exact Or.inl ⟨_, rfl⟩
    · rename_i idx hidx
      split
      · exact Or.inl ⟨_, rfl⟩
      · exact Or.inr ⟨idx, c.bans, hidx, rfl⟩

theorem removing_banByName (actor : AccountId) (name : Text) :
    Removing name fun c =>
      ((c.banByName actor name).1.map Prod.snd, (c.banByName actor name).2) := by
  intro c
  unfold Channel.banByName
  dsimp only
  split
  · exact Or.inl ⟨_, rfl⟩
  · split
    · exact Or.inl ⟨_, rfl⟩
    · rename_i idx hidx
      split
      · exact Or.inl ⟨_, rfl⟩
      · exact Or.inr ⟨idx, insert (c.accountAt idx) c.bans, hidx, rfl⟩

/-- What an operator's removal of `name` does: it is refused and nothing changes, or the session
shown as `name` is removed. -/
def Moderates (inner : Inner Out) (key : Key) (name : Text) (result : ModResult Out)
    (inner' : Inner Out) : Prop :=
  (inner' = inner ∧ ∀ out op, result ≠ .ok out op) ∨
    ((∃ out op, result = .ok out op) ∧ inner.Removed key name inner')

theorem removeByOperator_spec (h : inner.Ok cfg) (key : Key) {name : Text}
    {action : Channel → Except OpError LeaveOutcome × Channel} (haction : Removing name action) :
    inner.Moderates key name (inner.removeByOperator key name action).1
      (inner.removeByOperator key name action).2 := by
  unfold removeByOperator
  cases hc : inner.channels.lookup key with
  | none => exact Or.inl ⟨rfl, fun _ _ => nofun⟩
  | some c =>
    have hroom : (inner.room key).channel = some c := hc
    rcases haction c with ⟨e, he⟩ | ⟨idx, bans, hidx, hact⟩
    · dsimp only
      generalize action c = result at he ⊢
      obtain ⟨result, c'⟩ := result
      obtain rfl : result = .error e := he
      refine Or.inl ⟨rfl, fun _ _ => ?_⟩
      cases e <;> nofun
    · obtain ⟨subs, hsubs, hnames⟩ := (h key).subscribers hroom
      have hlookup : inner.subscribers.lookup key = some subs := hsubs
      have hfind := findSubscriber hnames name
      rw [hidx] at hfind
      obtain ⟨pos, hpos, hval⟩ := Option.map_eq_some_iff.mp hfind
      have hr := ((Replaces.refl inner key).setChannel
        (Channel.removeAt { c with bans } idx).2).setSubscribers (subs.eraseIdx pos)
      rw [hval] at hr
      simp only [hact, pullSubscriber, setChannel, hlookup, hpos]
      refine Or.inr ⟨⟨_, _, rfl⟩, c, hroom, idx, bans, hidx, ?_⟩
      rw [hval]
      exact hr.without hsubs (Channel.removeAt_shouldDestroy { c with bans } idx)

theorem channelKick_spec (h : inner.Ok cfg) (key : Key) (actor : AccountId) (name : Text) :
    inner.Moderates key name (inner.channelKick key actor name).1
      (inner.channelKick key actor name).2 :=
  removeByOperator_spec h key (removing_kickByName actor name)

theorem channelBan_spec (h : inner.Ok cfg) (key : Key) (actor : AccountId) (name : Text) :
    inner.Moderates key name (inner.channelBan key actor name).1
      (inner.channelBan key actor name).2 :=
  removeByOperator_spec h key (removing_banByName actor name)

/-! ## Offices -/

/-- Nothing changes but a channel's heirs, bans and sequence number. -/
def Tended (c c' : Channel) : Prop :=
  c'.members = c.members ∧ c'.channelClass = c.channelClass ∧ c'.persist = c.persist ∧
    c'.display = c.display

theorem tended_designateByName {c c' : Channel} {actor heir : AccountId} {name : Text}
    (h : c.designateByName actor name = (.ok heir, c')) : Tended c c' := by
  unfold Channel.designateByName at h
  dsimp only at h
  split at h
  · cases h
  · split at h
    · cases h
    · split at h
      · cases h
      · split at h
        · cases h
          exact ⟨rfl, rfl, rfl, rfl⟩
        · cases h
          exact ⟨rfl, rfl, rfl, rfl⟩

theorem tended_unban {c c' : Channel} {actor target : AccountId} {was : Bool}
    (h : c.unban actor target = (.ok was, c')) : Tended c c' := by
  unfold Channel.unban at h
  split at h
  · cases h
  · cases h
    exact ⟨rfl, rfl, rfl, rfl⟩

def Tends (inner : Inner Out) (key : Key) (inner' : Inner Out) : Prop :=
  inner' = inner ∨ ∃ c c', (inner.room key).channel = some c ∧ Tended c c' ∧
    inner.Replaces key { inner.room key with channel := some c' } inner'

theorem Ok.tends (h : inner.Ok cfg) (ht : inner.Tends key inner') : inner'.Ok cfg := by
  rcases ht with rfl | ⟨c, c', hc, ⟨hmembers, hclass, hpersist, _⟩, hr⟩
  · exact h
  · exact h.replaces hr ((h key).withChannel hc hmembers hclass hpersist)

theorem channelDesignate_spec (inner : Inner Out) (key : Key) (actor : AccountId) (name : Text) :
    inner.Tends key (inner.channelDesignate key actor name).2 := by
  unfold channelDesignate
  split
  · exact Or.inl rfl
  · rename_i c hc
    split
    · exact Or.inl rfl
    · rename_i heir c' hact
      exact Or.inr ⟨c, c', hc, tended_designateByName hact,
        (Replaces.refl inner key).setChannel c'⟩

theorem channelUnban_spec (inner : Inner Out) (key : Key) (actor target : AccountId) :
    inner.Tends key (inner.channelUnban key actor target).2 := by
  unfold channelUnban
  split
  · exact Or.inl rfl
  · rename_i c hc
    split
    · exact Or.inl rfl
    · rename_i was c' hact
      exact Or.inr ⟨c, c', hc, tended_unban hact, (Replaces.refl inner key).setChannel c'⟩

/-! ## Notices -/

theorem enqueueLeave_spec (inner : Inner Out) (key : Key) (frame : ChatEvent) :
    (inner.enqueueLeave key frame = inner ∧ (inner.room key).subscribers = none) ∨
      ((inner.room key).subscribers.isSome ∧ inner.Replaces key
        { inner.room key with
          pending := some (((inner.room key).pending.getD []) ++ [frame]) }
        (inner.enqueueLeave key frame)) := by
  unfold enqueueLeave
  split
  · rename_i hmem
    obtain ⟨subs, hsubs⟩ := Finmap.mem_iff.mp hmem
    refine Or.inr ⟨?_, ?_, fun k hk => ?_⟩
    · rw [room, hsubs]
      rfl
    · simp only [room, Finmap.lookup_insert]
    · simp only [room, Finmap.lookup_insert_of_ne _ hk]
  · rename_i hmem
    exact Or.inl ⟨rfl, Finmap.lookup_eq_none.mpr hmem⟩

theorem flushLeaves_spec (inner : Inner Out) (key : Key) :
    inner.Replaces key { inner.room key with pending := none } (inner.flushLeaves key).2 := by
  have herase : inner.Replaces key { inner.room key with pending := none }
      { inner with pendingLeaves := inner.pendingLeaves.erase key } := by
    refine ⟨?_, fun k hk => ?_⟩
    · simp only [room, Finmap.lookup_erase]
    · simp only [room, Finmap.lookup_erase_ne hk]
  unfold flushLeaves
  split
  · rename_i hnone
    refine ⟨?_, fun _ _ => rfl⟩
    rw [room, hnone]
  · dsimp only
    split
    · exact herase
    · split
      · exact herase
      · exact herase

theorem Ok.flushLeaves (h : inner.Ok cfg) (key : Key) : (inner.flushLeaves key).2.Ok cfg := by
  have hroom := h key
  exact h.replaces (flushLeaves_spec inner key)
    ⟨hroom.same, nofun, hroom.distinct, hroom.persist, hroom.alive⟩

theorem broadcast_snd (receivers : Receivers Out) (inner : Inner Out) (key : Key)
    (wire : ChatEvent) (exclude senderBase : Option Text) :
    (inner.broadcast receivers key wire exclude senderBase).2.2 = (inner.flushLeaves key).2 := by
  unfold broadcast
  dsimp only
  split <;> rfl

theorem Ok.flushAll (h : inner.Ok cfg) (keys : List Key) : (inner.flushAll keys).2.Ok cfg := by
  induction keys generalizing inner with
  | nil => exact h
  | cons key keys ih => exact ih (h.flushLeaves key)

end Inner

/-!
## Roster and fan-out list

Runs of the channel methods of a node, by whatever sessions. The display names of a channel's
members differ because `Channel.join` sees to it, so nothing is asked of the callers.

* `Inner.Ok.exec`: every method keeps every room in order.
* `roster_agrees`: so they are in order in every state of every run.
-/

open Library

/-- A call of one of the channel methods. -/
inductive Call (Out : Type) where
  | joinChannel (rawName : List UInt8) (joiner : Joiner Out)
  | leaveChannel (key : Key) (displayName : Text)
  | channelKick (key : Key) (actor : AccountId) (targetName : Text)
  | channelBan (key : Key) (actor : AccountId) (targetName : Text)
  | channelDesignate (key : Key) (actor : AccountId) (targetName : Text)
  | channelUnban (key : Key) (actor target : AccountId)
  | enqueueLeave (key : Key) (frame : ChatEvent)
  | broadcast (receivers : Receivers Out) (key : Key) (wire : ChatEvent)
      (exclude senderBase : Option Text)
  | flushPending (walk : Map.Walk Key (List ChatEvent))

namespace Inner

variable {cfg : NodeConfig} {inner : Inner Out}

/-- The state after a call. -/
def exec (cfg : NodeConfig) (inner : Inner Out) : Call Out → Inner Out
  | .joinChannel rawName joiner => (inner.joinChannel cfg rawName joiner).2
  | .leaveChannel key displayName => (inner.leaveChannel key displayName).2
  | .channelKick key actor targetName => (inner.channelKick key actor targetName).2
  | .channelBan key actor targetName => (inner.channelBan key actor targetName).2
  | .channelDesignate key actor targetName => (inner.channelDesignate key actor targetName).2
  | .channelUnban key actor target => (inner.channelUnban key actor target).2
  | .enqueueLeave key frame => inner.enqueueLeave key frame
  | .broadcast receivers key wire exclude senderBase =>
    (inner.broadcast receivers key wire exclude senderBase).2.2
  | .flushPending walk => (inner.flushPending walk).2

theorem Ok.of_room (h : inner.Ok cfg) {inner' : Inner Out} (hroom : inner'.room = inner.room) :
    inner'.Ok cfg := by
  intro k
  rw [hroom]
  exact h k

theorem Ok.moderates (h : inner.Ok cfg) {key : Key} {name : Text} {result : ModResult Out}
    {inner' : Inner Out} (hm : inner.Moderates key name result inner') : inner'.Ok cfg := by
  rcases hm with ⟨rfl, _⟩ | ⟨_, hremoved⟩
  · exact h
  · exact h.removed hremoved

/-- The channel that a newcomer finds or creates, and its fan-out list. -/
theorem Ok.found (h : inner.Ok cfg) (key : Key) (display : Text) {c : Channel}
    (hc : c = (inner.channels.lookup key).getD (newChannel cfg key display)) :
    ((inner.room key).subscribers.getD []).map Prod.fst = c.memberNames ∧ c.names.Nodup ∧
      (c.persist = true → ∃ rule, cfg.channelRules.get key = some rule ∧ rule.persist = true) := by
  cases hlookup : inner.channels.lookup key with
  | some found =>
    rw [hlookup] at hc
    obtain rfl : c = found := hc
    obtain ⟨subs, hsubs, hnames⟩ := (h key).subscribers hlookup
    rw [hsubs]
    exact ⟨hnames, (h key).distinct c hlookup, (h key).persist c hlookup⟩
  | none =>
    rw [hlookup] at hc
    obtain rfl : c = newChannel cfg key display := hc
    have hnone : (inner.room key).subscribers = none := by
      rw [← Option.isNone_iff_eq_none, ← Option.not_isSome, (h key).isSome_iff]
      simp only [room, hlookup, Option.isSome_none, Bool.not_false]
    have hmembers := members_newChannel cfg key display
    rw [hnone, Channel.memberNames, Channel.names, hmembers]
    refine ⟨rfl, List.nodup_nil, fun hpersist => ?_⟩
    unfold newChannel at hpersist
    dsimp only at hpersist
    split at hpersist
    · rename_i rule hrule
      exact ⟨rule, hrule, hpersist⟩
    · cases hpersist

theorem Ok.entered (h : inner.Ok cfg) {key : Key} {display : Text} {c : Channel}
    (hc : c = (inner.channels.lookup key).getD (newChannel cfg key display)) {joiner : Joiner Out}
    (habsent : joiner.displayName.toAsciiLowercase ∉ c.names) :
    Room.Ok cfg key
      ⟨some (c.enter joiner.account joiner.displayName joiner.baseFlags joiner.statstring),
        some ((inner.room key).subscribers.getD [] ++ [(joiner.displayName, joiner.out)]),
        (inner.room key).pending⟩ := by
  obtain ⟨hnames, hdistinct, hpersist⟩ := h.found key display hc
  refine ⟨?_, fun _ => rfl, ?_, ?_, ?_⟩
  · simp only [Option.map_some, List.map_append, hnames, Channel.memberNames_enter]
    rfl
  · rintro _ ⟨⟩
    rw [Channel.names_eq, Channel.memberNames_enter, List.map_append, ← Channel.names_eq]
    exact hdistinct.append (List.nodup_singleton _) (by simpa using habsent)
  · rintro _ ⟨⟩
    exact hpersist
  · rintro _ ⟨⟩
    have hmembers : (c.enter joiner.account joiner.displayName joiner.baseFlags
        joiner.statstring).members ≠ [] := List.append_ne_nil_of_right_ne_nil _ (by simp)
    rw [Channel.abandoned, List.isEmpty_eq_false_iff.mpr hmembers]
    rfl

theorem Ok.exec (h : inner.Ok cfg) (call : Call Out) : (inner.exec cfg call).Ok cfg := by
  cases call with
  | joinChannel rawName joiner =>
    have hjoins := joinChannel_spec cfg inner rawName joiner
    change (inner.joinChannel cfg rawName joiner).2.Ok cfg
    generalize (inner.joinChannel cfg rawName joiner).1 = result at hjoins
    generalize (inner.joinChannel cfg rawName joiner).2 = inner' at hjoins ⊢
    cases hjoins with
    | denied denial _ hroom _ => exact h.of_room hroom
    | entered c joined _ hc habsent _ _ hroom => exact h.replaces hroom (h.entered hc habsent)
  | leaveChannel key displayName =>
    rcases leaveChannel_spec h key displayName with ⟨_, hroom⟩ | hremoved
    · exact h.of_room hroom
    · exact h.removed hremoved
  | channelKick key actor targetName => exact h.moderates (channelKick_spec h key actor targetName)
  | channelBan key actor targetName => exact h.moderates (channelBan_spec h key actor targetName)
  | channelDesignate key actor targetName =>
    exact h.tends (channelDesignate_spec inner key actor targetName)
  | channelUnban key actor target => exact h.tends (channelUnban_spec inner key actor target)
  | enqueueLeave key frame =>
    rcases enqueueLeave_spec inner key frame with ⟨he, _⟩ | ⟨hsubs, hr⟩
    · exact h.of_room (congrArg room he)
    · have hroom := h key
      exact h.replaces hr ⟨hroom.same, fun _ => hsubs, hroom.distinct, hroom.persist, hroom.alive⟩
  | broadcast receivers key wire exclude senderBase =>
    change (inner.broadcast receivers key wire exclude senderBase).2.2.Ok cfg
    rw [broadcast_snd]
    exact h.flushLeaves key
  | flushPending walk => exact h.flushAll _

end Inner

/-- Roster and fan-out list agree, and nothing outlives its channel. -/
structure RosterAgrees (cfg : NodeConfig) (inner : Inner Out) : Prop where
  same_names : ∀ key c, inner.channels.lookup key = some c →
    ∃ subs, inner.subscribers.lookup key = some subs ∧
      subs.map Prod.fst = c.members.map Member.name
  no_leak : ∀ key, key ∉ inner.channels → key ∉ inner.subscribers
  notices : ∀ key ∈ inner.pendingLeaves, key ∈ inner.subscribers
  alive : ∀ key c, inner.channels.lookup key = some c → c.members ≠ [] ∨
    (∃ rule, cfg.channelRules.get key = some rule ∧ rule.persist = true) ∨
    c.channelClass.persistsWhenEmpty = true

theorem Inner.Ok.rosterAgrees {cfg : NodeConfig} {inner : Inner Out} (h : inner.Ok cfg) :
    RosterAgrees cfg inner := by
  refine ⟨fun key c hc => (h key).subscribers hc, fun key hkey => ?_, fun key hkey => ?_,
    fun key c hc => ?_⟩
  · rw [← Finmap.lookup_eq_none, ← Option.isNone_iff_eq_none, ← Option.not_isSome] at hkey ⊢
    exact (congrArg not (h key).isSome_iff).trans hkey
  · rw [← Finmap.lookup_isSome] at hkey ⊢
    exact (h key).notices hkey
  · have halive := (h key).alive c hc
    by_cases hmembers : c.members = []
    · by_cases hclass : c.channelClass.persistsWhenEmpty = true
      · exact Or.inr (Or.inr hclass)
      · refine Or.inr (Or.inl ((h key).persist c hc ?_))
        simpa [Channel.abandoned, hmembers, hclass] using halive
    · exact Or.inl hmembers

/-- **Roster and fan-out list agree** in every state of every run. -/
theorem roster_agrees (cfg : NodeConfig) (calls : List (Call Out)) :
    Always (Inner.exec cfg) (RosterAgrees cfg) Inner.empty calls := by
  have hok : Always (Inner.exec cfg) (Inner.Ok cfg) Inner.empty calls :=
    Along.always (C := fun _ _ => True) (fun _ call h _ => h.exec call) Inner.ok_empty
      (along_of_forall fun _ _ _ => trivial)
  exact hok.imp fun _ h => h.rosterAgrees

end CommandCenter.Daemon
