import CommandCenter.Daemon.ServerParts

/-!
# The list of games

`Node::advertise_game` and `Node::withdraw_game` of `crates/bnetccd/src/node.rs`. A game is
entered under its name in lower case, and taken off by the account of its host, while hosting is
a matter of a session.

* `Board`: the list of games beside who advertised and who hosts.
* `Board.exact_drop_iff`, `Board.exact_withdraw_iff`: when the list stays exact.
* `listing_sound`: what a session asks for, it asks for its own account.
-/

namespace CommandCenter.Daemon

open Rust CommandCenter.Core Proto Library
open Storage (Account)

/-- The key of a name, `to_ascii_lowercase`. -/
def gameKey (name : List UInt8) : List UInt8 := name.map Text.byteToAsciiLowercase

def GameAd.key (ad : GameAd) : List UInt8 := gameKey ad.name

/-- The games offered to others, by the keys of their names. -/
abbrev GameDirectory := Map (List UInt8) GameAd

namespace GameDirectory

/-- Advertise a game, if the name is free or that of a game of the same account. -/
def advertiseGame (games : GameDirectory) (ad : GameAd) : Bool × GameDirectory :=
  match games.lookup ad.key with
  | some existing =>
    if existing.host ≠ ad.host then (false, games) else (true, games.insert ad.key ad)
  | none => (true, games.insert ad.key ad)

def withdrawGame (games : GameDirectory) (account : AccountId) : GameDirectory :=
  games.retain fun _ ad => ad.host ≠ account

theorem advertiseGame_cases (games : GameDirectory) (ad : GameAd) :
    games.advertiseGame ad = (true, games.insert ad.key ad) ∨
      games.advertiseGame ad = (false, games) := by
  unfold advertiseGame
  split
  · split
    · exact Or.inr rfl
    · exact Or.inl rfl
  · exact Or.inl rfl

end GameDirectory

/-! ## Who hosts what -/

/-- The list of games, who was the last to advertise each name, and the game that each session
hosts. -/
@[ext]
structure Board where
  games : GameDirectory
  advertiser : List UInt8 → Option ConnId
  hosts : ConnId → Option GameAd

namespace Board

/-- The session was the last to advertise the name and hosts the game. -/
def Hosts (b : Board) (i : ConnId) (name : List UInt8) : Prop :=
  b.advertiser name = some i ∧ (b.hosts i).map GameAd.key = some name

instance (b : Board) (i : ConnId) (name : List UInt8) : Decidable (b.Hosts i name) :=
  inferInstanceAs (Decidable (_ ∧ _))

/-- The list is that of the games that are hosted. -/
def Exact (b : Board) : Prop := ∀ name, name ∈ b.games ↔ ∃ i, b.Hosts i name

/-- A game that is hosted is listed as its host advertised it, if at all. -/
def Current (b : Board) : Prop :=
  ∀ i g, b.hosts i = some g → b.advertiser g.key = some i → ∀ g' ∈ b.games.lookup g.key, g' = g

def drop (b : Board) (i : ConnId) : Board := { b with hosts := Function.update b.hosts i none }

def advertise (b : Board) (i : ConnId) (ad : GameAd) : Board where
  games := b.games.insert ad.key ad
  advertiser := Function.update b.advertiser ad.key (some i)
  hosts := Function.update b.hosts i (some ad)

def withdraw (b : Board) (i : ConnId) (account : AccountId) : Board :=
  { b.drop i with games := b.games.withdrawGame account }

variable {b : Board} {i j : ConnId} {g ad : GameAd} {name : List UInt8} {account : AccountId}

theorem hosts_drop : (b.drop i).Hosts j name ↔ b.Hosts j name ∧ j ≠ i := by
  unfold Hosts drop
  by_cases hj : j = i
  · simp [hj]
  · simp [hj]

theorem Current.drop (h : b.Current) (i : ConnId) : (b.drop i).Current := by
  intro j g hj hadvertiser g' hg'
  by_cases hji : j = i
  · rw [hji] at hj
    change Function.update b.hosts i none i = some g at hj
    rw [Function.update_self] at hj
    cases hj
  · change Function.update b.hosts i none j = some g at hj
    rw [Function.update_of_ne hji] at hj
    exact h j g hj hadvertiser g' hg'

theorem Current.withdraw (h : b.Current) (i : ConnId) (account : AccountId) :
    (b.withdraw i account).Current := by
  intro j g hj hadvertiser g' hg'
  refine h.drop i j g hj hadvertiser g' ?_
  change g' ∈ (b.games.withdrawGame account).lookup g.key at hg'
  rw [GameDirectory.withdrawGame, Map.lookup_retain] at hg'
  exact (Option.filter_eq_some_iff.mp hg').1

theorem Current.advertise (h : b.Current) (i : ConnId) (ad : GameAd) :
    (b.advertise i ad).Current := by
  intro j g hj hadvertiser g' hg'
  change Function.update b.hosts i (some ad) j = some g at hj
  change Function.update b.advertiser ad.key (some i) g.key = some j at hadvertiser
  change g' ∈ (b.games.insert ad.key ad).lookup g.key at hg'
  by_cases hkey : g.key = ad.key
  · rw [hkey, Function.update_self] at hadvertiser
    obtain rfl := Option.some.inj hadvertiser
    rw [Function.update_self] at hj
    rw [hkey, Finmap.lookup_insert] at hg'
    exact (Option.some.inj hg').symm.trans (Option.some.inj hj)
  · rw [Function.update_of_ne hkey] at hadvertiser
    rw [Finmap.lookup_insert_of_ne _ hkey] at hg'
    by_cases hji : j = i
    · rw [hji, Function.update_self] at hj
      exact absurd (congrArg GameAd.key (Option.some.inj hj)).symm hkey
    · rw [Function.update_of_ne hji] at hj
      exact h j g hj hadvertiser g' hg'

/-- The list stays exact without a host exactly if the game it hosted is another's by now. -/
theorem exact_drop_iff (h : b.Exact) (hg : b.hosts i = some g) :
    (b.drop i).Exact ↔ b.advertiser g.key ≠ some i := by
  have hown : b.Hosts i g.key ↔ b.advertiser g.key = some i := by
    unfold Hosts
    rw [hg]
    exact and_iff_left rfl
  constructor
  · intro hexact hadvertiser
    obtain ⟨j, hj⟩ := (hexact g.key).mp ((h g.key).mpr ⟨i, hown.mpr hadvertiser⟩)
    obtain ⟨hhosts, hji⟩ := hosts_drop.mp hj
    exact hji (Option.some.inj (hhosts.1.symm.trans hadvertiser))
  · intro hother name
    refine (h name).trans (exists_congr fun j => ?_)
    rw [hosts_drop]
    refine (and_iff_left_of_imp fun hj hji => ?_).symm
    rw [hji] at hj
    have hname : g.key = name := by
      have hkey := hj.2
      rw [hg] at hkey
      exact Option.some.inj hkey
    rw [← hname] at hj
    exact hother (hown.mp hj)

theorem exact_advertise (h : b.Exact) (hkey : ∀ g ∈ b.hosts i, g.key = ad.key) :
    (b.advertise i ad).Exact := by
  intro name
  show name ∈ b.games.insert ad.key ad ↔ _
  rw [Finmap.mem_insert]
  by_cases hname : name = ad.key
  · refine ⟨fun _ => ⟨i, ?_⟩, fun _ => Or.inl hname⟩
    unfold Hosts advertise
    rw [hname]
    simp
  · rw [or_iff_right hname, h name]
    refine exists_congr fun j => ?_
    unfold Hosts advertise
    dsimp only
    rw [Function.update_of_ne hname]
    by_cases hji : j = i
    · rw [hji, Function.update_self]
      refine and_congr_right fun _ => ⟨fun hold => ?_, fun hnew => ?_⟩
      · obtain ⟨g, hg, hgkey⟩ := Option.map_eq_some_iff.mp hold
        exact absurd (hgkey.symm.trans (hkey g hg)) hname
      · exact absurd (Option.some.inj hnew).symm hname
    · rw [Function.update_of_ne hji]

theorem mem_withdraw :
    name ∈ (b.withdraw i account).games ↔ ∃ g ∈ b.games.lookup name, g.host ≠ account := by
  show name ∈ b.games.withdrawGame account ↔ _
  rw [Finmap.mem_iff]
  refine exists_congr fun g => ?_
  rw [GameDirectory.withdrawGame, Map.lookup_retain, Option.filter_eq_some_iff]
  simp

/-- The session was the last to advertise each listed game of the account. -/
def OnlyBy (b : Board) (i : ConnId) (account : AccountId) : Prop :=
  ∀ name ∈ b.games.keys, (b.games.lookup name).map GameAd.host = some account →
    b.advertiser name = some i

instance (b : Board) (i : ConnId) (account : AccountId) : Decidable (b.OnlyBy i account) :=
  inferInstanceAs (Decidable (∀ name ∈ b.games.keys, _ → _))

/-- The list stays exact when a session withdraws the games of its account exactly if it was the
one to advertise them. -/
theorem exact_withdraw_iff (h : b.Exact) (hcurrent : b.Current)
    (hhost : ∀ g ∈ b.hosts i, g.host = account) :
    (b.withdraw i account).Exact ↔ b.OnlyBy i account := by
  constructor
  · intro hexact name hmem hname
    obtain ⟨g, hg, haccount⟩ := Option.map_eq_some_iff.mp hname
    obtain ⟨j, hj⟩ := (h name).mp (Finmap.mem_keys.mp hmem)
    by_contra hother
    have hji : j ≠ i := fun hji => hother (hji ▸ hj.1)
    obtain ⟨g', hg', hne⟩ := mem_withdraw.mp ((hexact name).mpr ⟨j, hosts_drop.mpr ⟨hj, hji⟩⟩)
    obtain rfl : g = g' := Option.some.inj (hg.symm.trans hg')
    exact hne haccount
  · intro hown name
    rw [mem_withdraw]
    constructor
    · rintro ⟨g, hg, hne⟩
      obtain ⟨j, hj⟩ := (h name).mp (Finmap.mem_of_lookup_eq_some hg)
      refine ⟨j, hosts_drop.mpr ⟨hj, fun hji => hne ?_⟩⟩
      rw [hji] at hj
      obtain ⟨g', hg', hname⟩ := Option.map_eq_some_iff.mp hj.2
      have hsame : g = g' := by
        refine hcurrent i g' hg' ?_ g ?_
        · rw [hname]
          exact hj.1
        · rw [hname]
          exact hg
      rw [hsame]
      exact hhost g' hg'
    · intro hhosts
      obtain ⟨j, hj⟩ : ∃ j, (b.drop i).Hosts j name := hhosts
      obtain ⟨hj, hji⟩ := hosts_drop.mp hj
      obtain ⟨g, hg⟩ := Finmap.mem_iff.mp ((h name).mpr ⟨j, hj⟩)
      refine ⟨g, hg, fun haccount => hji ?_⟩
      have hadvertiser := hown name (Finmap.mem_keys.mpr (Finmap.mem_of_lookup_eq_some hg)) (by
        rw [hg, ← haccount]
        rfl)
      exact Option.some.inj (hj.1.symm.trans hadvertiser)

/-! ## What happens to a board -/

/-- A step makes a new board, and does so in order or not. -/
inductive Moves (b : Board) : Board → Prop → Prop
  | stays {C : Prop} (hC : C) : Moves b b C
  | drops {C : Prop} {i : ConnId} {g : GameAd} (hg : b.hosts i = some g)
      (hC : C ↔ b.advertiser g.key ≠ some i) : Moves b (b.drop i) C
  | advertises {C : Prop} {i : ConnId} {ad : GameAd} (hkey : ∀ g ∈ b.hosts i, g.key = ad.key)
      (hC : C) : Moves b (b.advertise i ad) C
  | withdraws {C : Prop} {i : ConnId} {account : AccountId}
      (hhost : ∀ g ∈ b.hosts i, g.host = account) (hC : C ↔ b.OnlyBy i account) :
      Moves b (b.withdraw i account) C

variable {b' : Board} {C : Prop}

theorem Moves.current (h : b.Moves b' C) (hcurrent : b.Current) : b'.Current := by
  cases h with
  | stays _ => exact hcurrent
  | drops _ _ => exact hcurrent.drop _
  | advertises _ _ => exact hcurrent.advertise _ _
  | withdraws _ _ => exact hcurrent.withdraw _ _

theorem Moves.exact_iff (h : b.Moves b' C) (hcurrent : b.Current) (hexact : b.Exact) :
    b'.Exact ↔ C := by
  cases h with
  | stays hC => exact iff_of_true hexact hC
  | drops hg hC => exact (exact_drop_iff hexact hg).trans hC.symm
  | advertises hkey hC => exact iff_of_true (exact_advertise hexact hkey) hC
  | withdraws hhost hC => exact (exact_withdraw_iff hexact hcurrent hhost).trans hC.symm

end Board

/-! ## What a session hosts -/

/-- The frame asks to advertise a game of another name. -/
def renames (frame : Frame) (g : GameAd) : Bool :=
  frame.id = Sid.startAdvEx3 &&
    (Bncs.readAdvertisement.read frame).toOption.any fun ad => gameKey ad.name ≠ g.key

def noteHosting (hosting : Option GameAd) : Entry → Option GameAd
  | .took frame => hosting.filter fun g => !renames frame g
  | .asked (.advertiseGame ad) true => some ad
  | .asked (.withdrawGame _) _ => none
  | .asked _ _ => hosting

theorem noteHosting_renames {hosted : Option GameAd} {frame : Frame} {g : GameAd}
    (hg : g ∈ hosted) (h : renames frame g = true) : noteHosting hosted (.took frame) = none := by
  obtain rfl : hosted = some g := hg
  show (some g).filter (fun g => !renames frame g) = none
  simp [h]

theorem noteHosting_kept {hosted : Option GameAd} {frame : Frame}
    (h : ∀ g ∈ hosted, renames frame g = false) : noteHosting hosted (.took frame) = hosted := by
  show hosted.filter (fun g => !renames frame g) = hosted
  cases hosted with
  | none => rfl
  | some g => simp [h g rfl]

/-- The game that a session hosts: the last one it advertised with success, until it withdraws it
or asks to advertise another. -/
def hosting (log : List Entry) : Option GameAd := log.foldl noteHosting none

@[simp] theorem hosting_concat (log : List Entry) (entry : Entry) :
    hosting (log ++ [entry]) = noteHosting (hosting log) entry := by
  rw [hosting, List.foldl_append]
  rfl

theorem hosting_took {log : List Entry} {frame : Frame} {g : GameAd}
    (h : g ∈ hosting (log ++ [.took frame])) : g ∈ hosting log ∧ renames frame g = false := by
  rw [hosting_concat] at h
  obtain ⟨hg, hsame⟩ := Option.filter_eq_some_iff.mp h
  exact ⟨hg, by simpa using hsame⟩

theorem hosting_asked {q : Request} (log : List Entry) (answer : Reply q)
    (hq : q.concern ≠ .listing) : hosting (log ++ [.asked q answer]) = hosting log := by
  rw [hosting_concat]
  cases q
  all_goals first | rfl | exact absurd rfl hq

/-- A session hosts games of its own account, in chat. -/
def Bncs.HostsOwn (s : Bncs) (log : List Entry) : Prop :=
  ∀ g ∈ hosting log, s.account.map (·.id) = some g.host

/-- What a session asks of the list of games, it asks for its own account, and for one game at a
time. -/
def listing : Contract where
  asks s log
    | .advertiseGame ad => s.account.map (·.id) = some ad.host ∧ ∀ g ∈ hosting log, g.key = ad.key
    | .withdrawGame account => s.account.map (·.id) = some account
    | _ => True
  answers _ _ _ := True
  inv s log := s.HostsOwn log ∧ (s.state.authenticated = false → hosting log = none)
  during s log := s.HostsOwn log
  left log := hosting log = none

theorem listing_asks {q : Request} (h : q.concern ≠ .listing) (s : Bncs) (log : List Entry) :
    listing.asks s log q := by
  cases q
  all_goals first | exact absurd rfl h | trivial

/-- A program that asks for nothing of the kind leaves it as it is. -/
theorem keeps_hosting {α : Type} {post : α → Prop} {x : Program α} (s : Bncs)
    (h : x.Within (fun q => q.concern ≠ .listing) post) (log : List Entry) :
    x.Keeps (listing.watch s) (fun value log' => post value ∧ hosting log' = hosting log) log :=
  h.keeps hosting (fun log _ answer hq => hosting_asked log answer hq)
    fun log' _ _ hq => listing_asks hq s log'

theorem Footprint.Asks.unlisted {fp : Footprint} {q : Request} (h : fp.Asks q)
    (hfp : fp.concern ≠ .listing ∧ fp.lists = false) : q.concern ≠ .listing := by
  rcases h with hother | hsame | ⟨hlists, _⟩
  · rw [hother]
    exact Concern.noConfusion
  · rw [hsame]
    exact hfp.1
  · rw [hfp.2] at hlists
    exact absurd hlists Bool.false_ne_true

theorem Footprint.light_unlisted {q : Request} (h : Footprint.light.Asks q) :
    q.concern ≠ .listing := h.unlisted ⟨Concern.noConfusion, rfl⟩

namespace Bncs

variable {cfg : ServerConfig} {s s' : Bncs} {frame : Frame} {log log' : List Entry}

theorem accepts_chat {state : SessionState} {id : UInt8} (h : state.accepts id = true)
    (hid : id = Sid.startAdvEx3) : state.authenticated ≠ false := by
  rw [hid] at h
  cases state <;> first | exact Bool.noConfusion | exact absurd h (by decide)

theorem HostsOwn.of_eq (h : s.HostsOwn log) (haccount : s'.account = s.account)
    (hhosting : hosting log' = hosting log) : s'.HostsOwn log' := by
  unfold HostsOwn
  rw [haccount, hhosting]
  exact h

theorem hostsOwn_of_none (h : hosting log = none) : s.HostsOwn log := by
  intro g hg
  rw [h] at hg
  cases hg

/-- What a handler leaves: games of the account that the session still has. -/
def Keeping (s : Bncs) (r : Step × Bncs) (log : List Entry) : Prop :=
  r.2.account = s.account ∧ r.2.HostsOwn log

theorem send_keeping (haccount : s'.account = s.account) (h : s.HostsOwn log) :
    (s'.send frame).Keeps (listing.watch s) s.Keeping log := by
  refine ⟨trivial, fun queued _ => ⟨haccount, ?_⟩⟩
  exact h.of_eq haccount (hosting_asked log queued Concern.noConfusion)

theorem host_keeping {account : Account} {ad : Advertisement} (haccount : s.account = some account)
    (h : s.HostsOwn log) (hkey : ∀ g ∈ hosting log, g.key = gameKey ad.name) :
    (s.host account ad).Keeps (listing.watch s) s.Keeping log := by
  have hid : s.account.map (·.id) = some account.id := by
    rw [haccount]
    rfl
  refine ⟨trivial, fun created _ => ⟨⟨hid, fun g hg => ?_⟩, fun free _ => ?_⟩⟩
  · change g ∈ hosting (log ++ [.asked .instant created]) at hg
    rw [hosting_asked log created Concern.noConfusion] at hg
    exact hkey g hg
  -- what was advertised is the account's own
  have hstill : s.HostsOwn (log ++ [.asked .instant created] ++
      [.asked (.advertiseGame _) free]) := by
    cases free with
    | true =>
      intro g hg
      rw [hosting_concat] at hg
      rw [← Option.some.inj hg]
      exact hid
    | false =>
      refine h.of_eq rfl ?_
      rw [hosting_concat]
      exact hosting_asked log created Concern.noConfusion
  show Asking.Keeps (listing.watch s) s.Keeping (if free = true then _ else _) _
  split
  · show Asking.Keeps (listing.watch s) s.Keeping (if s.hostingGame = true then _ else _) _
    split
    · exact send_keeping rfl hstill
    · refine ⟨trivial, fun since _ => ⟨trivial, fun noted _ => send_keeping rfl ?_⟩⟩
      refine hstill.of_eq rfl ?_
      exact (hosting_asked _ noted Concern.noConfusion).trans
        (hosting_asked _ since Concern.noConfusion)
  · exact send_keeping rfl hstill

theorem advertise_keeping (hid : frame.id = Sid.startAdvEx3)
    (h : s.HostsOwn (log ++ [.took frame])) :
    (s.advertise cfg frame).Keeps (listing.watch s) s.Keeping (log ++ [.took frame]) := by
  unfold advertise
  split
  · split
    · exact ⟨rfl, h⟩
    · exact ⟨rfl, h⟩
    · rename_i account ad haccount hread
      have hkey : ∀ g ∈ hosting (log ++ [.took frame]), g.key = gameKey ad.name := by
        intro g hg
        have hsame := (hosting_took hg).2
        rw [renames, hid, hread] at hsame
        have hname : gameKey ad.name = g.key := by simpa [Except.toOption] using hsame
        exact hname.symm
      split
      · have hwins : (s.normalWins account.name).Within Footprint.light.Asks fun _ => True :=
          normalWins_within _
        have hunlisted := keeps_hosting s (hwins.imp fun _ => Footprint.light_unlisted)
          (log ++ [.took frame])
        refine Asking.keeps_bind.mpr (hunlisted.mono fun wins log' hlog' => ?_)
        have h' : s.HostsOwn log' := h.of_eq rfl hlog'.2
        split
        · exact send_keeping rfl h'
        · refine host_keeping haccount h' ?_
          rw [hlog'.2]
          exact hkey
      · exact host_keeping haccount h hkey
  · exact send_keeping rfl h

theorem withdrawGame_keeping (h : s.HostsOwn log) :
    s.withdrawGame.Keeps (listing.watch s) (fun _ log' => hosting log' = none) log := by
  unfold withdrawGame
  split
  · rename_i account haccount
    have hid : s.account.map (·.id) = some account.id := by
      rw [haccount]
      rfl
    exact ⟨hid, fun answer _ => hosting_concat log (.asked (.withdrawGame account.id) answer)⟩
  · rename_i hnone
    show hosting log = none
    refine Option.eq_none_iff_forall_ne_some.mpr fun g hg => ?_
    have hsome := h g hg
    rw [hnone] at hsome
    cases hsome

theorem HostsOwn.took (h : s.HostsOwn log) : s.HostsOwn (log ++ [.took frame]) :=
  fun g hg => h g (hosting_took hg).1

theorem hosting_took_none (h : hosting log = none) : hosting (log ++ [.took frame]) = none := by
  rw [hosting_concat, h]
  rfl

theorem stopAdvertising_keeping (starts : Bool) (h : s.HostsOwn log) :
    (s.stopAdvertising starts).Keeps (listing.watch s) (fun _ log' => hosting log' = none) log := by
  refine Asking.keeps_bind.mpr ((withdrawGame_keeping h).mono fun _ log' hnone => ?_)
  have hstarts : (s.startGame starts).Within Footprint.light.Asks _ := startGame_within starts
  have hunlisted := keeps_hosting s (hstarts.imp fun _ => Footprint.light_unlisted) log'
  exact Asking.keeps_bind.mpr (hunlisted.mono fun _ _ h' => h'.2.trans hnone)

theorem dispatch_advertise (hid : frame.id = Sid.startAdvEx3) :
    s.dispatch cfg frame = s.advertise cfg frame := by
  rw [dispatch, hid]
  rfl

theorem dispatch_stops (cfg : ServerConfig) (s : Bncs)
    (hid : frame.id = Sid.stopAdv ∨ frame.id = Sid.leaveGame) :
    ∃ starts, s.dispatch cfg frame = s.stopAdvertising starts := by
  rcases hid with hid | hid
  · refine ⟨true, ?_⟩
    rw [dispatch, hid]
    rfl
  · refine ⟨false, ?_⟩
    rw [dispatch, hid]
    rfl

/-- A packet leaves games of the account that the session still has, and none before the logon. -/
theorem dispatch_keeping (hinv : listing.inv s log) (haccepts : s.state.accepts frame.id = true) :
    (s.dispatch cfg frame).Keeps (listing.watch s) (fun r log' => r.2.HostsOwn log' ∧
      (s.state.authenticated = false → hosting log' = none)) (log ++ [.took frame]) := by
  obtain ⟨hown, hnone⟩ := hinv
  by_cases hhost : frame.id = Sid.startAdvEx3
  · rw [dispatch_advertise hhost]
    refine (advertise_keeping hhost hown.took).mono fun r log' hr => ⟨hr.2, fun hnot => ?_⟩
    exact absurd hnot (accepts_chat haccepts hhost)
  by_cases hends : frame.id = Sid.stopAdv ∨ frame.id = Sid.leaveGame
  · obtain ⟨starts, hdispatch⟩ := dispatch_stops cfg s hends
    rw [hdispatch]
    refine (stopAdvertising_keeping starts hown.took).mono fun r log' hr => ?_
    exact ⟨hostsOwn_of_none hr, fun _ => hr⟩
  · have hleaves : (s.dispatch cfg frame).Within (footprint frame.id).Asks
        fun r => (footprint frame.id).Keeps s r.2 := dispatch_leaves
    have hunlisted := keeps_hosting s
      (hleaves.imp fun q hq => hq.unlisted (footprint_listing hhost hends)) (log ++ [.took frame])
    refine hunlisted.mono fun r log' hr => ⟨?_, fun hnot => ?_⟩
    · by_cases hlogon : SessionState.Logon frame.id
      · refine hostsOwn_of_none (hr.2.trans (hosting_took_none (hnone ?_)))
        rw [SessionState.accepts_logon haccepts hlogon]
        rfl
      · refine hown.took.of_eq (hr.1.account.resolve_left ?_) hr.2
        rw [footprint_account hlogon]
        exact Bool.false_ne_true
    · exact hr.2.trans (hosting_took_none (hnone hnot))

theorem leave_keeping (h : s.HostsOwn log) :
    s.leave.Keeps (listing.watch s) (fun _ log' => hosting log' = none) log := by
  have hkeys (now : Nat) : (releaseKeys now s.claimedKeys).Within
      (Footprint.Asks { concern := .keys }) fun _ => True := releaseKeys_within rfl now _
  have hunlisted (now : Nat) (log : List Entry) := keeps_hosting s ((hkeys now).imp fun _ hq =>
    hq.unlisted ⟨Concern.noConfusion, rfl⟩) log
  have hrelease {log' : List Entry} (hnone : hosting log' = none) :
      (ask (.release s.client s.peer)).Keeps (listing.watch s) (fun _ log' => hosting log' = none)
        log' :=
    ⟨trivial, fun released _ => (hosting_asked _ released Concern.noConfusion).trans hnone⟩
  refine Asking.keeps_bind.mpr (Asking.keeps_bind.mpr ⟨trivial, fun now _ => ?_⟩)
  refine Asking.keeps_bind.mpr (Asking.Keeps.mono (hunlisted now _) fun _ log' hlog' => ?_)
  refine Asking.keeps_bind.mpr ((withdrawGame_keeping (h.of_eq rfl ?_)).mono fun _ _ hnone => ?_)
  · exact hlog'.2.trans (hosting_asked _ now Concern.noConfusion)
  · split
    · refine ⟨trivial, fun gone _ => ⟨trivial, fun free _ => hrelease ?_⟩⟩
      exact (hosting_asked _ free Concern.noConfusion).trans
        ((hosting_asked _ gone Concern.noConfusion).trans hnone)
    · exact hrelease hnone

end Bncs

theorem listing_sound (cfg : ServerConfig) : listing.Sound (fun _ _ _ => True) cfg where
  starts _ _ := ⟨Bncs.hostsOwn_of_none rfl, fun _ => rfl⟩
  takes hinv _ := hinv.1.took
  handles := by
    intro s log frame hinv haccepts _
    apply Contract.keeps_handle
    have hleaves : (s.dispatch cfg frame).Within (Bncs.footprint frame.id).Asks
        fun r => (Bncs.footprint frame.id).Keeps s r.2 := Bncs.dispatch_leaves
    refine ((Bncs.dispatch_keeping hinv haccepts).within hleaves.any).mono fun r log' hr => ?_
    obtain ⟨⟨hown, hnone⟩, hkeeps⟩ := hr
    refine ⟨fun _ => ⟨hown.of_eq (r.2.advance_fields frame.id).1 rfl, fun hnot => hnone ?_⟩, ?_⟩
    · rw [Bool.eq_false_iff]
      intro hauthenticated
      rw [← hkeeps.state] at hauthenticated
      rw [Bncs.authenticated_advance hauthenticated] at hnot
      cases hnot
    · exact fun _ => ⟨hown, Bncs.leave_keeping hown⟩
  notes := by
    intro s log q answer hown hasks hanswer
    by_cases hq : q.concern = .listing
    · cases q
      case advertiseGame ad =>
        cases answer with
        | true =>
          intro g hg
          rw [hosting_concat] at hg
          rw [← Option.some.inj hg]
          exact hasks.1
        | false => exact hown.of_eq rfl (hosting_concat log (.asked (.advertiseGame ad) false))
      case withdrawGame account =>
        exact Bncs.hostsOwn_of_none (hosting_concat log (.asked (.withdrawGame account) answer))
      all_goals exact Concern.noConfusion hq
    · exact hown.of_eq rfl (hosting_asked log answer hq)
  leaves state hinv _ := ⟨hinv.1, Bncs.leave_keeping hinv.1⟩

end CommandCenter.Daemon
